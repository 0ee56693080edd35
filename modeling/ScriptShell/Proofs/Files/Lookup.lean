import ScriptShell.Files.Listing
import ScriptShell.Proofs.Files.PathTexts

/-!
# Lookups of entries

Where the path of a directory leads, the path of an entry leads one name further: all the parts that
the two paths share are followed in the same way, and the links on the way are counted once more
from the start. So an entry is found by its path as long as the path is short enough for the system
and the user may go through the directory.
-/

namespace ScriptShell

/-! ### Trees -/

namespace Entries

variable {α : Type} {es : Entries α} {key : String} {item : α}

theorem mem_of_find?_eq_some (h : es.find? key = some item) : (key, item) ∈ es := by
  induction es with
  | nil => cases h
  | cons e es ih =>
    obtain ⟨k, a⟩ := e
    rw [find?] at h
    split at h
    · next heq =>
      cases h
      exact heq ▸ List.mem_cons_self ..
    · exact List.mem_cons_of_mem _ (ih h)

/-- With distinct keys, what stands at a key is the item with it. -/
theorem find?_eq_some_iff_mem (h : es.keys.Nodup) :
    es.find? key = some item ↔ (key, item) ∈ es := by
  refine ⟨mem_of_find?_eq_some, fun hmem => ?_⟩
  induction es with
  | nil => cases hmem
  | cons e es ih =>
    obtain ⟨k, a⟩ := e
    obtain ⟨hk, hes⟩ := List.nodup_cons.mp h
    rw [find?]
    obtain heq | hmem := List.mem_cons.mp hmem
    · obtain ⟨rfl, rfl⟩ := Prod.mk.inj heq
      rw [if_pos rfl]
    · have hne : k ≠ key := fun heq => hk (heq ▸ List.mem_map.mpr ⟨_, hmem, rfl⟩)
      rw [if_neg hne]
      exact ih hes hmem

end Entries

namespace Node

/-- In every directory of a tree different entries have different names, of the kind that entries
can have. -/
inductive WellNamed : Node → Prop where
  | file (info : FileInfo) (content : List UInt8) : WellNamed (.file info content)
  | link (target : String) : WellNamed (.link target)
  | directory (info : FileInfo) {es : Entries Node} (hdistinct : es.keys.Nodup)
    (hnames : ∀ e ∈ es, IsEntryName e.1) (hbelow : ∀ e ∈ es, e.2.WellNamed) :
    WellNamed (.directory info es)

theorem at?_cons (name : String) (names : Location) (info : FileInfo) (es : Entries Node) :
    at? (name :: names) (.directory info es) = (Entries.find? name es).bind (at? names) := by
  rw [at?]

/-- What stands at a place is found step by step. -/
theorem at?_append (n : Node) (names names' : Location) :
    n.at? (names ++ names') = (n.at? names).bind (at? names') := by
  induction names generalizing n with
  | nil => rw [List.nil_append, at?, Option.bind_some]
  | cons name names ih =>
    cases n with
    | directory info es =>
      rw [List.cons_append, at?_cons, at?_cons]
      cases Entries.find? name es with
      | none => rfl
      | some child => exact ih child
    | file | link => rfl

/-- What stands in a tree with proper names is such a tree, and the names that lead to it are
proper. -/
theorem WellNamed.at? {n m : Node} (h : n.WellNamed) {names : Location}
    (hat : n.at? names = some m) : m.WellNamed ∧ ∀ name ∈ names, IsEntryName name := by
  induction names generalizing n with
  | nil =>
    rw [Node.at?] at hat
    exact ⟨Option.some.inj hat ▸ h, nofun⟩
  | cons name names ih =>
    cases h with
    | directory info hdistinct hnames hbelow =>
      rw [at?_cons] at hat
      obtain ⟨child, hchild, hat⟩ := Option.bind_eq_some_iff.mp hat
      have hmem := (Entries.find?_eq_some_iff_mem hdistinct).mp hchild
      obtain ⟨hm, hrest⟩ := ih (hbelow _ hmem) hat
      exact ⟨hm, List.forall_mem_cons.mpr ⟨hnames _ hmem, hrest⟩⟩
    | file | link => cases hat

theorem wellNamed_lost : lost.WellNamed := .directory _ List.nodup_nil nofun nofun

/-! ### Parts -/

/-- Whether a user may look parts up in a node: it is a directory that the user may go through. -/
def passes (privileged : Bool) : Node → Bool
  | .directory info _ => info.allows privileged .search
  | _ => false

/-- What can be passed through is a directory that may be searched. -/
theorem exists_of_passes {n : Node} (h : n.passes privileged = true) :
    ∃ info es, n = .directory info es ∧ info.allows privileged .search = true := by
  cases n with
  | directory info es => exact ⟨info, es, rfl, h⟩
  | file | link => cases h

/-- Where a part of a path leads a user from a place if the path goes on behind it: to another
place, and for a link through the parts of its target first, which takes up one of the links that are
left. Every part but the empty one behind a slash at the end asks for the right to go through the
directory. -/
inductive Follows (privileged : Bool) (place : Location) (info : FileInfo) (es : Entries Node) :
    Nat → String → Nat → Location → List String → Prop where
  | slash (links : Nat) : Follows privileged place info es links "" links place []
  | here (links : Nat) (hsearch : info.allows privileged .search) :
    Follows privileged place info es links "." links place []
  | above (links : Nat) (hsearch : info.allows privileged .search) :
    Follows privileged place info es links ".." links place.dropLast []
  | entry (links : Nat) {part : String} {child : Node} (hsearch : info.allows privileged .search)
    (hempty : part ≠ "") (hhere : part ≠ ".") (habove : part ≠ "..")
    (hshort : part.utf8ByteSize ≤ greatestName) (hfind : Entries.find? part es = some child)
    (hlink : ∀ target, child ≠ .link target) :
    Follows privileged place info es links part links (place ++ [part]) []
  | link (links : Nat) {part target : String} (hsearch : info.allows privileged .search)
    (hempty : part ≠ "") (hhere : part ≠ ".") (habove : part ≠ "..")
    (hshort : part.utf8ByteSize ≤ greatestName)
    (hfind : Entries.find? part es = some (.link target)) :
    Follows privileged place info es (links + 1) part links
      (if Path.isAbsolute target then [] else place) (partsToWalk .target target)

section

variable {root : Node} {privileged : Bool} {place place' : Location} {info : FileInfo}
  {es : Entries Node} {links links' : Nat} {part : String} {more : List String}

/-- Each part takes up a link or leaves no parts of its own to follow, so that a path comes to an
end. -/
theorem Follows.smaller (h : Follows privileged place info es links part links' place' more) :
    links' < links ∨ links' = links ∧ more = [] := by
  cases h with
  | slash | here | above | entry => exact .inr ⟨rfl, rfl⟩
  | link => exact .inl (Nat.lt_succ_self _)

/-- A part is followed in the same way whatever is behind it, if anything is. -/
theorem Follows.walk_cons (h : Follows privileged place info es links part links' place' more)
    (hdir : (root.at? place).getD lost = .directory info es) {goal : Goal} {rest : List String}
    (hrest : goal = .target ∨ rest ≠ []) :
    walk root privileged goal links place (part :: rest) =
      walk root privileged goal links' place' (more ++ rest) := by
  rw [walk, hdir]
  cases h with
  | slash => rfl
  | here _ hsearch | above _ hsearch =>
    simp only [hsearch]
    rfl
  | entry _ hsearch hempty hhere habove hshort hfind hlink =>
    simp only [hsearch, if_neg hempty, if_neg hhere, if_neg habove, if_neg (Nat.not_lt.mpr hshort),
      hfind]
    rfl
  | link _ hsearch hempty hhere habove hshort hfind =>
    simp only [hsearch, if_neg hempty, if_neg hhere, if_neg habove, if_neg (Nat.not_lt.mpr hshort),
      hfind]
    have hnot : (rest.isEmpty && goal == .itself) = false := by
      obtain rfl | hne := hrest <;> simp [*]
    have hgoal : (if rest.isEmpty then goal else .target) = .target := by
      obtain rfl | hne := hrest <;> simp [*]
    rw [hnot, hgoal]
    rfl

/-- A part on the way to a node has been followed. -/
theorem exists_follows {rest : List String} {n : Node} {end' : Location}
    (h : walk root privileged .target links place (part :: rest) = .ok (.node end' n)) :
    ∃ info es, (root.at? place).getD lost = .directory info es ∧
      ∃ links' place' more, Follows privileged place info es links part links' place' more := by
  rw [walk] at h
  split at h
  · next info es hdir =>
    refine ⟨info, es, hdir, ?_⟩
    split at h
    · next hempty => exact hempty ▸ ⟨_, _, _, .slash links⟩
    split at h
    · cases h
    next hempty hsearch =>
    have hsearch : info.allows privileged .search = true := by simpa using hsearch
    split at h
    · next hhere => exact hhere ▸ ⟨_, _, _, .here links hsearch⟩
    split at h
    · next habove => exact habove ▸ ⟨_, _, _, .above links hsearch⟩
    split at h
    · cases h
    next hhere habove hlong =>
    have hshort := Nat.not_lt.mp hlong
    split at h
    · split at h <;> cases h
    · next target hfind =>
      rw [if_neg (by simp)] at h
      split at h
      · cases h
      · next links => exact ⟨_, _, _, .link links hsearch hempty hhere habove hshort hfind⟩
    · next child hlink hfind =>
      exact ⟨_, _, _, .entry links hsearch hempty hhere habove hshort hfind hlink⟩
  · cases h

/-- Parts that lead to a node lead on from there, for every goal: how far the parts are followed
does not depend on what comes behind them. An empty part may be left out at the end. -/
theorem walk_append {root : Node} {privileged : Bool} {parts tail : List String}
    (htail : tail = [] ∨ tail = [""]) {links : Nat} {place place' : Location} {n : Node}
    (h : walk root privileged .target links place (parts ++ tail) = .ok (.node place' n)) :
    n = (root.at? place').getD lost ∧
      ∃ links', ∀ goal rest, rest ≠ [] →
        walk root privileged goal links place (parts ++ rest) =
          walk root privileged goal links' place' rest := by
  cases parts with
  | nil =>
    have hends : walk root privileged .target links place [] = .ok (.node place' n) := by
      obtain rfl | rfl := htail
      · exact h
      · obtain ⟨info, es, hdir, -⟩ := exists_follows h
        have hslash : Follows privileged place info es links "" links place [] := .slash links
        exact hslash.walk_cons hdir (.inl rfl) ▸ h
    rw [walk] at hends
    cases hends
    exact ⟨rfl, links, fun goal rest _ => rfl⟩
  | cons part parts =>
    obtain ⟨info, es, hdir, links', place'', more, hfollows⟩ := exists_follows h
    rw [List.cons_append, hfollows.walk_cons hdir (.inl rfl), ← List.append_assoc] at h
    obtain ⟨hn, links'', hgo⟩ := walk_append htail h
    refine ⟨hn, links'', fun goal rest hrest => ?_⟩
    rw [List.cons_append, hfollows.walk_cons hdir (.inr (by simp [hrest])), ← List.append_assoc]
    exact hgo goal rest hrest
termination_by (links, parts.length)
decreasing_by
  obtain hlt | ⟨rfl, rfl⟩ := hfollows.smaller
  · exact .left _ _ hlt
  · exact .right _ (by simp [*])

/-- The name of an entry leads to it, and to a link itself if that is the goal, where the user may go
through the directory. -/
theorem walk_name {name : String} {child : Node} (hat : root.at? place = some (.directory info es))
    (hsearch : info.allows privileged .search) (hname : IsEntryName name)
    (hchild : Entries.find? name es = some child) {goal : Goal}
    (hgoal : goal = .itself ∨ ∀ target, child ≠ .link target) (links : Nat) :
    walk root privileged goal links place [name] = .ok (.node (place ++ [name]) child) := by
  have hthere : root.at? (place ++ [name]) = some child := by
    rw [at?_append, hat, Option.bind_some, at?_cons, hchild]
    rfl
  rw [walk, hat, Option.getD_some]
  simp only [hsearch, if_neg hname.ne_empty, if_neg hname.ne_here, if_neg hname.ne_above,
    if_neg (Nat.not_lt.mpr hname.short), hchild]
  cases child with
  | link target =>
    obtain rfl := hgoal.resolve_right fun hlink => hlink target rfl
    rfl
  | file | directory =>
    simp only [walk, hthere]
    rfl

/-- The name of an entry leads nowhere where the user may not go through the directory. -/
theorem walk_name_of_not_search {name : String}
    (hdir : (root.at? place).getD lost = .directory info es)
    (hsearch : info.allows privileged .search = false) (hname : IsEntryName name) (goal : Goal)
    (links : Nat) : walk root privileged goal links place [name] = .error .denied := by
  rw [walk, hdir]
  simp only [hsearch, if_neg hname.ne_empty]
  rfl

end

end Node

namespace World

variable {w : World} {directory name : String} {place : Location} {info : FileInfo}
  {es : Entries Node} {child : Node}

/-- The texts that the system takes as paths. -/
theorem checkPath_eq_ok_iff {path : String} :
    checkPath path = .ok () ↔
      '\x00' ∉ path.toList ∧ path ≠ "" ∧ path.utf8ByteSize ≤ greatestPath := by
  unfold checkPath
  split
  · next hnul => simp_all
  · next hnul =>
    split
    · next hempty => simp_all
    · next hempty =>
      split
      · next hlong => simp [Nat.not_le.mpr hlong]
      · next hlong => simp_all

/-- To locate a path is to find what it leads to, if that is there. -/
theorem locate_eq_ok_iff {path : String} {n : Node} :
    w.locate path = .ok (place, n) ↔ w.find .target path = .ok (.node place n) := by
  rw [locate]
  rcases w.find .target path with r | found
  · simp [bind, Except.bind]
  · cases found <;> simp [bind, Except.bind, pure, Except.pure]

/-- A path that leads to something is one that the system takes, and its parts are followed. -/
theorem find_eq_ok_iff {path : String} {goal : Goal} {found : Found} :
    w.find goal path = .ok found ↔ checkPath path = .ok () ∧
      w.root.walk w.privileged goal Node.linkLimit (w.start path) (Node.partsToWalk goal path) =
        .ok found := by
  rw [find]
  rcases checkPath path with r | u
  · simp [bind, Except.bind]
  · simp [bind, Except.bind]

/-- A path leads to a tree with proper names if it leads into one. -/
theorem wellNamed_of_locate (hw : w.root.WellNamed) {path : String} {n : Node}
    (h : w.locate path = .ok (place, n)) : n.WellNamed := by
  have hwalk := (find_eq_ok_iff.mp (locate_eq_ok_iff.mp h)).2
  rw [← List.append_nil (Node.partsToWalk .target path)] at hwalk
  obtain ⟨rfl, -⟩ := Node.walk_append (.inl rfl) hwalk
  cases hat : w.root.at? place with
  | none => exact Node.wellNamed_lost
  | some n => exact (hw.at? hat).1

/-- The parts of the path of an entry are those of its directory and its name. -/
theorem partsToWalk_join (hdirectory : directory ≠ "") (hname : IsEntryName name) (goal : Goal) :
    Node.partsToWalk goal (Path.join directory name) = Path.parts directory ++ [name] := by
  have hslash := Path.endsWithSlash_join hdirectory hname
  rw [Node.partsToWalk, Node.namesWithSlash, hslash, ← Path.parts_join hdirectory hname]
  simp

section

variable (h : w.locate directory = .ok (place, .directory info es)) (hname : IsEntryName name)
include h hname

/-- What is left of the path of an entry where its directory has been reached is its name. -/
theorem exists_find_join_eq (hfits : (Path.join directory name).utf8ByteSize ≤ greatestPath)
    (goal : Goal) :
    (w.root.at? place).getD Node.lost = .directory info es ∧ ∃ links,
      w.find goal (Path.join directory name) =
        w.root.walk w.privileged goal links place [name] := by
  obtain ⟨hcheck, hwalk⟩ := find_eq_ok_iff.mp (locate_eq_ok_iff.mp h)
  obtain ⟨hnul, hne, -⟩ := checkPath_eq_ok_iff.mp hcheck
  obtain ⟨tail, htail, hparts⟩ : ∃ tail, (tail = [] ∨ tail = [""]) ∧
      Node.partsToWalk .target directory = Path.parts directory ++ tail := by
    unfold Node.partsToWalk
    rw [if_neg (by simp)]
    split
    · exact ⟨[""], .inr rfl, rfl⟩
    · exact ⟨[], .inl rfl, (List.append_nil _).symm⟩
  rw [hparts] at hwalk
  obtain ⟨hstands, links, hgo⟩ := Node.walk_append htail hwalk
  have hcheck : checkPath (Path.join directory name) = .ok () := by
    refine checkPath_eq_ok_iff.mpr ⟨?_, Path.join_ne_empty hne hname, hfits⟩
    rwa [Path.nul_mem_join_iff hne hname]
  refine ⟨hstands.symm, links, ?_⟩
  rw [find, hcheck, partsToWalk_join hne hname, start, Path.isAbsolute_join hne hname, ← start,
    ← hgo goal [name] (List.cons_ne_nil name [])]
  rfl

/-- An entry of a directory that a path leads to is found by its own path, if that is not too long
and the user may go through the directory. -/
theorem find_join (hchild : Entries.find? name es = some child) (hsearch : w.maySearch info)
    (hfits : (Path.join directory name).utf8ByteSize ≤ greatestPath) {goal : Goal}
    (hgoal : goal = .itself ∨ ∀ target, child ≠ .link target) :
    w.find goal (Path.join directory name) = .ok (.node (place ++ [name]) child) := by
  obtain ⟨hdir, links, hfind⟩ := exists_find_join_eq h hname hfits goal
  have hat : w.root.at? place = some (.directory info es) := by
    -- A lost working directory has no entries, so this is none.
    cases hat : w.root.at? place with
    | some n =>
      rw [hat] at hdir
      exact congrArg _ hdir
    | none =>
      rw [hat] at hdir
      cases hdir
      cases hchild
  rw [hfind]
  exact Node.walk_name hat hsearch hname hchild hgoal links

/-- No entry is found by its path where the user may not go through the directory. -/
theorem find_join_of_not_search (hsearch : w.maySearch info = false)
    (hfits : (Path.join directory name).utf8ByteSize ≤ greatestPath) (goal : Goal) :
    w.find goal (Path.join directory name) = .error .denied := by
  obtain ⟨hdir, links, hfind⟩ := exists_find_join_eq h hname hfits goal
  rw [hfind]
  exact Node.walk_name_of_not_search hdir hsearch hname goal links

/-- No entry is found by a path that is too long. -/
theorem find_join_of_long (hlong : greatestPath < (Path.join directory name).utf8ByteSize)
    (goal : Goal) : w.find goal (Path.join directory name) = .error .nameTooLong := by
  obtain ⟨hnul, hne, -⟩ := checkPath_eq_ok_iff.mp (find_eq_ok_iff.mp (locate_eq_ok_iff.mp h)).1
  have hcheck : checkPath (Path.join directory name) = .error .nameTooLong := by
    have hempty : (Path.join directory name).isEmpty = false := by
      simpa using Path.join_ne_empty hne hname
    rw [checkPath, if_neg (by simpa [Path.nul_mem_join_iff hne hname] using hnul), hempty,
      if_neg Bool.false_ne_true, if_pos hlong]
  rw [find, hcheck]
  rfl

/-- An entry is found to be a directory by its path if it is one, the user may go through the
directory that holds it, and the path is not too long. -/
theorem hasRealDirectory_join (hchild : Entries.find? name es = some child) :
    w.hasRealDirectory (Path.join directory name) = (child.isDirectory && (w.maySearch info &&
      decide ((Path.join directory name).utf8ByteSize ≤ greatestPath))) := by
  rw [hasRealDirectory]
  by_cases hfits : (Path.join directory name).utf8ByteSize ≤ greatestPath
  · rw [decide_eq_true hfits, Bool.and_true]
    cases hsearch : w.maySearch info with
    | true => rw [find_join h hname hchild hsearch hfits (.inl rfl), Bool.and_true]
    | false => rw [find_join_of_not_search h hname hsearch hfits, Bool.and_false]
  · rw [find_join_of_long h hname (Nat.not_le.mp hfits), decide_eq_false hfits, Bool.and_false,
      Bool.and_false]

/-- The path of a subdirectory leads to it, if it is not too long and the user may go through the
directory that holds it. -/
theorem locate_join (hchild : Entries.find? name es = some child) (hsearch : w.maySearch info)
    (hdirectory : child.isDirectory)
    (hfits : (Path.join directory name).utf8ByteSize ≤ greatestPath) :
    w.locate (Path.join directory name) = .ok (place ++ [name], child) := by
  refine locate_eq_ok_iff.mpr (find_join h hname hchild hsearch hfits
    (.inr fun target heq => ?_))
  rw [heq] at hdirectory
  cases hdirectory

end

end World

end ScriptShell
