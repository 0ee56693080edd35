import ScriptShell.Text.ClusterClass

/-!
# Clusters

A text is cut into clusters, the runs that a reader takes for one character each. Two neighbours
belong together by the rules for extended grapheme clusters, which look at the classes of both and,
for pictographs, conjuncts and flags, at a summary of what the cluster holds so far. The clusters
of a text are the text again when they are put together.
-/

namespace ScriptShell.Text

/-- How far a cluster is on the way to a pair of pictographs with a joiner between them. -/
inductive Pairing where
  | none | pictograph | joined
  deriving DecidableEq, Repr

/-- How far a cluster is on the way to a conjunct of two consonants. -/
inductive Conjunct where
  | none | consonant | linked
  deriving DecidableEq, Repr

/-- What the rules need to know of the cluster read so far. -/
structure ClusterState where
  last : ClusterClass
  pairing : Pairing
  conjunct : Conjunct
  /-- Whether the regional signs at its end are odd in number. -/
  isHalfFlag : Bool
  deriving DecidableEq, Repr

namespace ClusterState

/-- The pairing of a cluster after a character of a class. -/
def nextPairing (before : Pairing) : ClusterClass → Pairing
  | .pictograph => .pictograph
  | .extend | .linker => if before = .pictograph then .pictograph else .none
  | .joiner => if before = .pictograph then .joined else .none
  | _ => .none

/-- The conjunct of a cluster after a character of a class; U+200C ends it. -/
def nextConjunct (before : Conjunct) (c : Char) : ClusterClass → Conjunct
  | .consonant => .consonant
  | .linker => if before = .none then .none else .linked
  | .extend | .joiner => if c.toNat = 0x200C then .none else before
  | _ => .none

/-- A cluster of one character. -/
def start (c : Char) : ClusterState :=
  let k := ClusterClass.ofChar c
  ⟨k, nextPairing .none k, nextConjunct .none c k, k == .regional⟩

/-- A cluster with one more character. -/
def push (s : ClusterState) (c : Char) : ClusterState :=
  let k := ClusterClass.ofChar c
  ⟨k, nextPairing s.pairing k, nextConjunct s.conjunct c k, k == .regional && !s.isHalfFlag⟩

/-- Whether a class always stands alone, a line feed after a carriage return apart. -/
def isBarrier : ClusterClass → Bool
  | .carriageReturn | .lineFeed | .control => true
  | _ => false

/-- Whether two parts of a syllable of Hangul go together. -/
def isSyllable : ClusterClass → ClusterClass → Bool
  | .initial, .initial | .initial, .medial | .initial, .openSyllable | .initial, .closedSyllable =>
    true
  | .openSyllable, .medial | .openSyllable, .final | .medial, .medial | .medial, .final => true
  | .closedSyllable, .final | .final, .final => true
  | _, _ => false

/-- Whether a character of a class belongs to the cluster before it. -/
def takes (s : ClusterState) (k : ClusterClass) : Bool :=
  if s.last = .carriageReturn ∧ k = .lineFeed then true
  else if isBarrier s.last || isBarrier k then false
  else
    match k with
    | .extend | .linker | .joiner | .spacing => true
    | .consonant => s.last == .leading || s.conjunct == .linked
    | .pictograph => s.last == .leading || s.pairing == .joined
    | .regional => s.last == .leading || s.isHalfFlag
    | k => s.last == .leading || isSyllable s.last k

end ClusterState

/-- The clusters of a text after one that is under way, `cluster` being its characters so far,
reversed. -/
def clustersFrom (s : ClusterState) (cluster : List Char) : List Char → List (List Char)
  | [] => [cluster.reverse]
  | c :: cs =>
    if s.takes (ClusterClass.ofChar c) then clustersFrom (s.push c) (c :: cluster) cs
    else cluster.reverse :: clustersFrom (.start c) [c] cs

/-- The clusters of a text, in order. -/
def clusters : List Char → List (List Char)
  | [] => []
  | c :: cs => clustersFrom (.start c) [c] cs

theorem flatten_clustersFrom (s : ClusterState) (cluster cs : List Char) :
    (clustersFrom s cluster cs).flatten = cluster.reverse ++ cs := by
  induction cs generalizing s cluster with
  | nil => simp [clustersFrom]
  | cons c cs ih =>
    unfold clustersFrom
    split <;> simp [ih]

/-- Cutting a text into clusters loses nothing of it. -/
theorem flatten_clusters (cs : List Char) : (clusters cs).flatten = cs := by
  cases cs with
  | nil => rfl
  | cons c cs => simp [clusters, flatten_clustersFrom]

end ScriptShell.Text
