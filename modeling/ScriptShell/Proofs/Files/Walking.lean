import Mathlib.Data.List.Flatten
import Mathlib.Data.List.Nodup
import Mathlib.Data.List.Perm.Subperm
import Mathlib.Data.String.Basic
import ScriptShell.Proofs.Files.Lookup

/-!
# Walks through directories

A walk lists what stands below a directory. Its answer is told by the tree alone: which places it
lists, and in which order. The places below a directory are told by the names that lead there, and
since links are no directories, these names never lead through one: a walk stays in the tree, and
it comes to an end however deep it may go. A directory is listed by its own path, so the user has to
have the right to read it and the right to go through those that lead to it.
-/

namespace ScriptShell

/-! ### The order of a walk -/

/-- The order in which the places below a directory are listed: the entries of a directory in the
order of their names, then what is below its subdirectories, in the order of their names. -/
inductive ListedBefore : Location → Location → Prop where
  | entries (directory : Location) {x y : String} (h : x < y) :
    ListedBefore (directory ++ [x]) (directory ++ [y])
  | above (directory : Location) (x y : String) {below : Location} (h : below ≠ []) :
    ListedBefore (directory ++ [x]) (directory ++ y :: below)
  | below (directory : Location) {x y : String} (h : x < y) {below below' : Location}
    (hbelow : below ≠ []) (hbelow' : below' ≠ []) :
    ListedBefore (directory ++ x :: below) (directory ++ y :: below')

/-- Places in one directory are listed as they are below it. -/
theorem ListedBefore.cons {names names' : Location} (h : ListedBefore names names')
    (name : String) : ListedBefore (name :: names) (name :: names') := by
  cases h with
  | entries directory h => exact .entries (name :: directory) h
  | above directory x y h => exact .above (name :: directory) x y h
  | below directory h hbelow hbelow' => exact .below (name :: directory) h hbelow hbelow'

/-- Below places with as many names the order is that of the places. -/
theorem ListedBefore.concat {names names' : Location} (h : ListedBefore names names')
    (hlength : names.length = names'.length) (name name' : String) :
    ListedBefore (names ++ [name]) (names' ++ [name']) := by
  cases h with
  | entries directory h =>
    rw [List.append_assoc, List.append_assoc]
    exact .below directory h (List.cons_ne_nil name []) (List.cons_ne_nil name' [])
  | above directory x y h => exact absurd (by simpa [eq_comm] using hlength) h
  | below directory h hbelow hbelow' =>
    rw [List.append_assoc, List.append_assoc]
    exact .below directory h (List.append_ne_nil_of_left_ne_nil hbelow _)
      (List.append_ne_nil_of_left_ne_nil hbelow' _)

/-- No place is listed before itself. -/
theorem ListedBefore.ne {names names' : Location} (h : ListedBefore names names') :
    names ≠ names' := by
  intro heq
  cases h with
  | entries directory h =>
    cases List.append_cancel_left heq
    exact String.lt_irrefl _ h
  | above directory x y h =>
    cases List.append_cancel_left heq
    exact h rfl
  | below directory h =>
    cases List.append_cancel_left heq
    exact String.lt_irrefl _ h

namespace World

variable {w : World} {hidden : Bool} {directory : String} {n : Node} {names : Location}

/-! ### Entries -/

/-- The entries that a listing shows of a node, in order; there are none where it cannot be
listed. -/
def shownOf (w : World) (hidden : Bool) (n : Node) : Entries Node :=
  match w.listing n with
  | .ok es => es.filter fun e => isShown hidden e.1
  | .error _ => []

/-- What is shown of a node is an entry of a directory that the user may read. -/
theorem mem_shownOf_iff {e : String × Node} :
    e ∈ w.shownOf hidden n ↔
      ∃ info es, n = .directory info es ∧ w.mayRead info ∧ e ∈ es ∧ isShown hidden e.1 := by
  cases n with
  | directory info es =>
    rw [shownOf, listing]
    by_cases hread : w.mayRead info
    · simp [hread, List.mem_mergeSort]
    · simp [hread]
  | file | link => simp [shownOf, listing]

theorem namesInOrder_iff {e e' : String × Node} : namesInOrder e e' = true ↔ e.1 ≤ e'.1 :=
  decide_eq_true_iff

/-- Distinct names are sorted strictly. -/
theorem mergeSort_namesInOrder {es : Entries Node} (h : es.keys.Nodup) :
    (es.mergeSort namesInOrder).Pairwise fun e e' => e.1 < e'.1 := by
  have hsorted : (es.mergeSort namesInOrder).Pairwise fun e e' => namesInOrder e e' = true := by
    refine List.pairwise_mergeSort (fun a b c => ?_) (fun a b => ?_) es
    · simpa only [namesInOrder_iff] using String.le_trans
    · simpa only [Bool.or_eq_true, namesInOrder_iff] using String.le_total a.1 b.1
  have hnodup : (Entries.keys (es.mergeSort namesInOrder)).Nodup :=
    ((List.mergeSort_perm es namesInOrder).map Prod.fst).nodup_iff.mpr h
  refine (hsorted.and (List.pairwise_map.mp hnodup)).imp fun ⟨hle, hne⟩ => ?_
  exact lt_of_le_of_ne (namesInOrder_iff.mp hle) hne

/-- The entries of a directory are shown in the order of their names, each once. -/
theorem pairwise_shownOf (h : n.WellNamed) (w : World) (hidden : Bool) :
    (w.shownOf hidden n).Pairwise fun e e' => e.1 < e'.1 := by
  unfold shownOf
  cases h with
  | directory info hdistinct =>
    rw [listing]
    split
    · next es hlisting =>
      split at hlisting
      · cases hlisting
        exact (mergeSort_namesInOrder hdistinct).filter _
      · cases hlisting
    · exact .nil
  | file | link => exact .nil

/-! ### Places -/

/-- The places below a directory that a walk lists, as the tree tells. -/
def placesBelow (w : World) (hidden : Bool) : Nat → String → Node → List Location
  | 0, _, n => (w.shownOf hidden n).map fun e => [e.1]
  | depth + 1, directory, n =>
    (w.shownOf hidden n).map (fun e => [e.1]) ++ (w.shownOf hidden n).flatMap fun e =>
      if n.passes w.privileged ∧ (Path.join directory e.1).utf8ByteSize ≤ greatestPath then
        (w.placesBelow hidden depth (Path.join directory e.1) e.2).map (e.1 :: ·)
      else []

/-- A place that is listed is an entry, or it is listed below one, where one level less is left. -/
theorem mem_placesBelow_iff {depth : Nat} :
    names ∈ w.placesBelow hidden depth directory n ↔
      ∃ e ∈ w.shownOf hidden n, names = [e.1] ∨
        ∃ less below, depth = less + 1 ∧ n.passes w.privileged ∧
          (Path.join directory e.1).utf8ByteSize ≤ greatestPath ∧
          below ∈ w.placesBelow hidden less (Path.join directory e.1) e.2 ∧
          names = e.1 :: below := by
  cases depth with
  | zero =>
    rw [placesBelow, List.mem_map]
    constructor
    · rintro ⟨e, he, rfl⟩
      exact ⟨e, he, .inl rfl⟩
    · rintro ⟨e, he, rfl | ⟨_, _, ⟨⟩, _⟩⟩
      exact ⟨e, he, rfl⟩
  | succ less =>
    rw [placesBelow, List.mem_append, List.mem_map, List.mem_flatMap]
    constructor
    · rintro (⟨e, he, rfl⟩ | ⟨e, he, hmem⟩)
      · exact ⟨e, he, .inl rfl⟩
      · split at hmem
        · next hgo =>
          obtain ⟨below, hbelow, rfl⟩ := List.mem_map.mp hmem
          exact ⟨e, he, .inr ⟨less, below, rfl, hgo.1, hgo.2, hbelow, rfl⟩⟩
        · cases hmem
    · rintro ⟨e, he, rfl | ⟨_, below, ⟨⟩, hpass, hfits, hbelow, rfl⟩⟩
      · exact .inl ⟨e, he, rfl⟩
      · refine .inr ⟨e, he, ?_⟩
        rw [if_pos ⟨hpass, hfits⟩]
        exact List.mem_map_of_mem hbelow

/-- A directory is no place below itself. -/
theorem ne_nil_of_mem_placesBelow {depth : Nat}
    (h : names ∈ w.placesBelow hidden depth directory n) : names ≠ [] := by
  obtain ⟨e, -, rfl | ⟨_, _, -, -, -, -, rfl⟩⟩ := mem_placesBelow_iff.mp h
  · exact List.cons_ne_nil e.1 []
  · exact List.cons_ne_nil e.1 _

/-- The places are listed in the order of a walk. -/
theorem pairwise_placesBelow (h : n.WellNamed) (w : World) (hidden : Bool) (depth : Nat)
    (directory : String) : (w.placesBelow hidden depth directory n).Pairwise ListedBefore := by
  induction depth generalizing directory n with
  | zero =>
    exact List.pairwise_map.mpr ((pairwise_shownOf h w hidden).imp fun hlt => .entries [] hlt)
  | succ depth ih =>
    have hshown := pairwise_shownOf h w hidden
    have hentries : ∀ e ∈ w.shownOf hidden n, e.2.WellNamed := by
      intro e he
      obtain ⟨info, es, rfl, -, hmem, -⟩ := mem_shownOf_iff.mp he
      cases h with
      | directory info hdistinct hnames hbelow => exact hbelow e hmem
    rw [placesBelow]
    refine List.pairwise_append.mpr ⟨?_, List.pairwise_flatMap.mpr ⟨?_, ?_⟩, ?_⟩
    · exact List.pairwise_map.mpr (hshown.imp fun hlt => .entries [] hlt)
    · intro e he
      split
      · exact List.pairwise_map.mpr ((ih (hentries e he) _).imp fun hbefore => hbefore.cons e.1)
      · exact .nil
    · refine hshown.imp fun hlt names hnames names' hnames' => ?_
      split at hnames <;> split at hnames'
      · obtain ⟨below, hbelow, rfl⟩ := List.mem_map.mp hnames
        obtain ⟨below', hbelow', rfl⟩ := List.mem_map.mp hnames'
        exact .below [] hlt (ne_nil_of_mem_placesBelow hbelow) (ne_nil_of_mem_placesBelow hbelow')
      all_goals contradiction
    · intro names hnames names' hnames'
      obtain ⟨e, -, rfl⟩ := List.mem_map.mp hnames
      obtain ⟨e', -, hnames'⟩ := List.mem_flatMap.mp hnames'
      split at hnames'
      · obtain ⟨below, hbelow, rfl⟩ := List.mem_map.mp hnames'
        exact .above [] e.1 e'.1 (ne_nil_of_mem_placesBelow hbelow)
      · cases hnames'

/-- No place is listed twice. -/
theorem nodup_placesBelow (h : n.WellNamed) (w : World) (hidden : Bool) (depth : Nat)
    (directory : String) : (w.placesBelow hidden depth directory n).Nodup :=
  (pairwise_placesBelow h w hidden depth directory).imp ListedBefore.ne

/-- With one level more the same places are listed in the same order, with others between them. -/
theorem placesBelow_sublist (w : World) (hidden : Bool) (depth : Nat) (directory : String)
    (n : Node) :
    (w.placesBelow hidden depth directory n).Sublist
      (w.placesBelow hidden (depth + 1) directory n) := by
  induction depth generalizing directory n with
  | zero => exact List.sublist_append_left ..
  | succ depth ih =>
    rw [placesBelow, placesBelow]
    refine List.Sublist.append (.refl _) (List.Sublist.flatMap_right _ fun e _ => ?_)
    split
    · exact (ih _ e.2).map _
    · exact .refl _

/-! ### Reach -/

/-- A directory below another one can be listed by its path: it is one, not a link to one, the user
may read it and go through all that lead to it, and the system takes the path. -/
structure CanList (w : World) (directory : String) (n : Node) (names : Location) : Prop where
  readable : ∃ info es, n.at? names = some (.directory info es) ∧ w.mayRead info
  passed : ∀ front, front <+: names → front ≠ names →
    (n.at? front).any (Node.passes w.privileged)
  fits : (Path.below directory names).utf8ByteSize ≤ greatestPath

/-- A directory itself can be listed where it may be read and its path is not too long. -/
theorem canList_nil_iff : w.CanList directory n [] ↔
    ∃ info es, n = .directory info es ∧ w.mayRead info ∧
      directory.utf8ByteSize ≤ greatestPath := by
  constructor
  · rintro ⟨⟨info, es, hat, hread⟩, -, hfits⟩
    exact ⟨info, es, Option.some.inj hat, hread, hfits⟩
  · rintro ⟨info, es, rfl, hread, hfits⟩
    exact ⟨⟨info, es, rfl, hread⟩, fun front hfront hne => absurd (List.prefix_nil.mp hfront) hne,
      hfits⟩

/-- A directory can be listed if the user may go through the one that the path starts at, and it can
be listed from the entry where the path goes on. -/
theorem canList_cons_iff {name : String} : w.CanList directory n (name :: names) ↔
    ∃ info es child, n = .directory info es ∧ w.maySearch info ∧
      Entries.find? name es = some child ∧ w.CanList (Path.join directory name) child names := by
  constructor
  · rintro ⟨⟨info', es', hat', hread⟩, hpassed, hfits⟩
    have hpass := hpassed [] List.nil_prefix (List.cons_ne_nil name names).symm
    obtain ⟨info, es, rfl, hsearch⟩ := Node.exists_of_passes hpass
    rw [Node.at?_cons] at hat'
    obtain ⟨child, hchild, hat⟩ := Option.bind_eq_some_iff.mp hat'
    refine ⟨info, es, child, rfl, hsearch, hchild, ⟨info', es', hat, hread⟩, ?_, hfits⟩
    intro front hfront hne
    have hthere := hpassed (name :: front) (List.cons_prefix_cons.mpr ⟨rfl, hfront⟩)
      fun heq => hne (List.cons.inj heq).2
    rwa [Node.at?_cons, hchild] at hthere
  · rintro ⟨info, es, child, rfl, hsearch, hchild, ⟨info', es', hat, hread⟩, hpassed, hfits⟩
    refine ⟨⟨info', es', ?_, hread⟩, fun front hfront hne => ?_, hfits⟩
    · rwa [Node.at?_cons, hchild]
    · cases front with
      | nil => exact hsearch
      | cons first front =>
        obtain ⟨rfl, hfront'⟩ := List.cons_prefix_cons.mp hfront
        rw [Node.at?_cons, hchild]
        exact hpassed front hfront' fun heq => hne (congrArg _ heq)

/-- A place below a directory is reached by a number of descents: something is there, all that the
names lead through can be listed, and no name starts with a dot unless that is asked for. -/
structure InReach (w : World) (hidden : Bool) (depth : Nat) (directory : String) (n : Node)
    (names : Location) : Prop where
  ne_nil : names ≠ []
  within : names.length ≤ depth + 1
  there : (n.at? names).isSome
  through : ∀ front, front <+: names → front ≠ names → w.CanList directory n front
  shown : hidden ∨ ∀ name ∈ names, ¬Path.isHidden name

/-- Hidden names are shown on demand. -/
theorem isShown_iff {name : String} : isShown hidden name ↔ hidden ∨ ¬Path.isHidden name := by
  simp [isShown]

/-- An entry is in reach if its directory can be listed, and what is below it if it is in reach from
there with one descent less. -/
theorem inReach_cons_iff {depth : Nat} {name : String} :
    w.InReach hidden depth directory n (name :: names) ↔
      ∃ info es child, n = .directory info es ∧ w.mayRead info ∧
        directory.utf8ByteSize ≤ greatestPath ∧ Entries.find? name es = some child ∧
        isShown hidden name ∧ (names = [] ∨ ∃ less, depth = less + 1 ∧ w.maySearch info ∧
          w.InReach hidden less (Path.join directory name) child names) := by
  constructor
  · intro h
    obtain ⟨info, es, rfl, hread, hfits⟩ :=
      canList_nil_iff.mp (h.through [] List.nil_prefix (List.cons_ne_nil name names).symm)
    obtain ⟨m, hm⟩ := Option.isSome_iff_exists.mp h.there
    rw [Node.at?_cons] at hm
    obtain ⟨child, hchild, hat⟩ := Option.bind_eq_some_iff.mp hm
    have hshown : isShown hidden name :=
      isShown_iff.mpr (h.shown.imp_right fun hall => hall name (List.mem_cons_self ..))
    refine ⟨info, es, child, rfl, hread, hfits, hchild, hshown, ?_⟩
    refine (Classical.em (names = [])).imp_right fun hne => ?_
    have hwithin := h.within
    rw [List.length_cons, Nat.add_le_add_iff_right] at hwithin
    obtain ⟨less, rfl⟩ :=
      Nat.exists_eq_add_of_le' (Nat.le_trans (List.length_pos_of_ne_nil hne) hwithin)
    have hthrough : ∀ front, front <+: names → front ≠ names → w.maySearch info ∧
        w.CanList (Path.join directory name) child front := by
      intro front hfront hfrontNe
      obtain ⟨info', es', child', heq, hsearch, hchild', hcan⟩ := canList_cons_iff.mp
        (h.through (name :: front) (List.cons_prefix_cons.mpr ⟨rfl, hfront⟩)
          fun heq => hfrontNe (List.cons.inj heq).2)
      cases heq
      cases hchild.symm.trans hchild'
      exact ⟨hsearch, hcan⟩
    refine ⟨less, rfl, (hthrough [] List.nil_prefix (Ne.symm hne)).1, hne, hwithin, hat ▸ rfl,
      fun front hfront hfrontNe => (hthrough front hfront hfrontNe).2, ?_⟩
    · exact h.shown.imp_right fun hall name hname => hall name (List.mem_cons_of_mem _ hname)
  · rintro ⟨info, es, child, rfl, hread, hfits, hchild, hshown, hrest⟩
    have hat : ∀ names, (Node.directory info es).at? (name :: names) = child.at? names := by
      intro names
      rw [Node.at?_cons, hchild, Option.bind_some]
    refine ⟨List.cons_ne_nil name names, ?_, ?_, fun front hfront hne => ?_, ?_⟩
    · obtain rfl | ⟨less, rfl, -, hreach⟩ := hrest
      · exact Nat.le_add_left ..
      · exact Nat.succ_le_succ hreach.within
    · rw [hat]
      obtain rfl | ⟨less, rfl, -, hreach⟩ := hrest
      · rfl
      · exact hreach.there
    · cases front with
      | nil => exact canList_nil_iff.mpr ⟨info, es, rfl, hread, hfits⟩
      | cons first front =>
        obtain ⟨rfl, hfront'⟩ := List.cons_prefix_cons.mp hfront
        obtain rfl | ⟨less, rfl, hsearch, hreach⟩ := hrest
        · exact absurd (congrArg _ (List.prefix_nil.mp hfront')) hne
        · exact canList_cons_iff.mpr ⟨info, es, child, rfl, hsearch, hchild,
            hreach.through front hfront' fun heq => hne (congrArg _ heq)⟩
    · refine (isShown_iff.mp hshown).elim .inl fun hvisible => ?_
      obtain rfl | ⟨less, rfl, -, hreach⟩ := hrest
      · exact .inr (List.forall_mem_singleton.mpr hvisible)
      · exact hreach.shown.imp_right fun hall => List.forall_mem_cons.mpr ⟨hvisible, hall⟩

/-- The places that a walk lists are those in reach. -/
theorem mem_placesBelow_iff_inReach (h : n.WellNamed)
    (hfits : directory.utf8ByteSize ≤ greatestPath) (depth : Nat) :
    names ∈ w.placesBelow hidden depth directory n ↔ w.InReach hidden depth directory n names := by
  induction names generalizing depth directory n with
  | nil =>
    exact ⟨fun hmem => absurd rfl (ne_nil_of_mem_placesBelow hmem),
      fun hreach => absurd rfl hreach.ne_nil⟩
  | cons name names ih =>
    rw [mem_placesBelow_iff, inReach_cons_iff]
    constructor
    · rintro ⟨e, he, hnames⟩
      obtain ⟨info, es, rfl, hread, hmem, hshown⟩ := mem_shownOf_iff.mp he
      cases h with
      | directory _ hdistinct _ hentries =>
        have hchild := (Entries.find?_eq_some_iff_mem hdistinct).mpr hmem
        obtain heq | ⟨less, below, rfl, hsearch, hfits', hbelow, heq⟩ := hnames
        · obtain ⟨rfl, rfl⟩ := List.cons.inj heq
          exact ⟨info, es, e.2, rfl, hread, hfits, hchild, hshown, .inl rfl⟩
        · obtain ⟨rfl, rfl⟩ := List.cons.inj heq
          exact ⟨info, es, e.2, rfl, hread, hfits, hchild, hshown,
            .inr ⟨less, rfl, hsearch, (ih (hentries e hmem) hfits' less).mp hbelow⟩⟩
    · rintro ⟨info, es, child, rfl, hread, -, hchild, hshown, hrest⟩
      cases h with
      | directory _ hdistinct _ hentries =>
        have hmem := (Entries.find?_eq_some_iff_mem hdistinct).mp hchild
        refine ⟨(name, child), mem_shownOf_iff.mpr ⟨info, es, rfl, hread, hmem, hshown⟩, ?_⟩
        refine hrest.imp (fun hnil => congrArg _ hnil) ?_
        rintro ⟨less, rfl, hsearch, hreach⟩
        have hfits' := (hreach.through [] List.nil_prefix hreach.ne_nil.symm).fits
        exact ⟨less, names, rfl, hsearch, hfits', (ih (hentries _ hmem) hfits' less).mpr hreach,
          rfl⟩

/-! ### Walks -/

/-- No place is listed below what cannot be. -/
theorem placesBelow_of_listing_error {r : Refusal} (h : w.listing n = .error r) (depth : Nat)
    (directory : String) : w.placesBelow hidden depth directory n = [] := by
  have hshown : w.shownOf hidden n = [] := by rw [shownOf, h]
  cases depth with
  | zero => rw [placesBelow, hshown, List.map_nil]
  | succ depth => rw [placesBelow, hshown, List.map_nil, List.flatMap_nil, List.append_nil]

/-- The paths that a listing shows of a directory, as the tree tells. -/
theorem shownPaths_eq {place : Location} (h : w.locate directory = .ok (place, n)) :
    w.shownPaths hidden directory =
      (w.listing n).map fun _ => (w.shownOf hidden n).map fun e => Path.join directory e.1 := by
  rw [shownPaths, entriesAt, h, shownOf]
  cases hlisting : w.listing n <;> simp [bind, Except.bind, pure, Except.pure, Except.map, hlisting]

/-- A walk to a depth lists the places that the tree tells by their paths, and fails where the
directory cannot be listed. -/
def WalksByTree (w : World) (hidden : Bool) (depth : Nat) : Prop :=
  ∀ {directory : String} {place : Location} {n : Node}, n.WellNamed →
    w.locate directory = .ok (place, n) →
    w.walkBelow hidden depth directory = (w.listing n).map fun _ =>
      (w.placesBelow hidden depth directory n).map (Path.below directory)

/-- The paths that are listed below one path, none where it cannot be listed. -/
def pathsBelow (w : World) (hidden : Bool) (depth : Nat) (path : String) : List String :=
  match w.walkBelow hidden depth path with
  | .ok paths => paths
  | .error _ => []

/-- A walk lists a directory, and then goes on below each real directory in it. -/
theorem walkBelow_succ (w : World) (hidden : Bool) (depth : Nat) (directory : String) :
    w.walkBelow hidden (depth + 1) directory = (w.shownPaths hidden directory).map fun here =>
      here ++ (here.filter w.hasRealDirectory).flatMap (w.pathsBelow hidden depth) := by
  rw [walkBelow]
  cases w.shownPaths hidden directory <;> rfl

/-- Nothing but a directory can be listed. -/
theorem listing_eq_error_of_not_directory (h : n.isDirectory = false) (w : World) :
    w.listing n = .error .notDirectory := by
  cases n with
  | directory => cases h
  | file | link => rfl

/-- A walk goes into an entry if it is a directory, no link to one, the user may go through the
directory that holds it, and its path is not too long. -/
theorem WalksByTree.entry {depth : Nat} (h : w.WalksByTree hidden depth) (hn : n.WellNamed)
    {place : Location} (hlocate : w.locate directory = .ok (place, n)) {e : String × Node}
    (he : e ∈ w.shownOf hidden n) :
    (if w.hasRealDirectory (Path.join directory e.1) then
      w.pathsBelow hidden depth (Path.join directory e.1) else []) =
      (if n.passes w.privileged ∧ (Path.join directory e.1).utf8ByteSize ≤ greatestPath then
        (w.placesBelow hidden depth (Path.join directory e.1) e.2).map (e.1 :: ·)
      else []).map (Path.below directory) := by
  obtain ⟨info, es, rfl, -, hmem, -⟩ := mem_shownOf_iff.mp he
  cases hn with
  | directory _ hdistinct hnames hentries =>
    have hname := hnames e hmem
    have hchild := (Entries.find?_eq_some_iff_mem hdistinct).mpr hmem
    rw [hasRealDirectory_join hlocate hname hchild]
    by_cases hgo : (Node.directory info es).passes w.privileged ∧
        (Path.join directory e.1).utf8ByteSize ≤ greatestPath
    · obtain ⟨hsearch, hfits⟩ := id hgo
      have hmay : w.maySearch info = true := hsearch
      rw [hmay, decide_eq_true hfits, Bool.and_true, Bool.and_true, if_pos hgo]
      cases hdirectory : e.2.isDirectory with
      | true =>
        have hwalk := h (hentries e hmem) (locate_join hlocate hname hchild hmay hdirectory hfits)
        rw [if_pos rfl, pathsBelow, hwalk]
        cases hlisting : w.listing e.2 with
        | error r =>
          rw [placesBelow_of_listing_error hlisting]
          rfl
        | ok shown => simp [Except.map, Function.comp_def]
      | false =>
        rw [placesBelow_of_listing_error (listing_eq_error_of_not_directory hdirectory w)]
        rfl
    · have hnot : (w.maySearch info &&
          decide ((Path.join directory e.1).utf8ByteSize ≤ greatestPath)) = false := by
        rw [← Bool.not_eq_true, Bool.and_eq_true, decide_eq_true_eq]
        exact hgo
      rw [hnot, Bool.and_false, if_neg hgo]
      rfl

theorem filter_map_flatMap {α β γ : Type} (l : List α) (f : α → β) (p : β → Bool)
    (g : β → List γ) :
    ((l.map f).filter p).flatMap g = l.flatMap fun a => if p (f a) then g (f a) else [] := by
  induction l with
  | nil => rfl
  | cons a l ih =>
    rw [List.map_cons, List.flatMap_cons, ← ih, List.filter_cons]
    split
    · rw [List.flatMap_cons]
    · rfl

/-- A walk by paths and a walk by the tree list the same, at every depth. -/
theorem walksByTree (w : World) (hidden : Bool) (depth : Nat) : w.WalksByTree hidden depth := by
  induction depth with
  | zero =>
    intro directory place n hn hlocate
    rw [walkBelow, shownPaths_eq hlocate, placesBelow, List.map_map]
    rfl
  | succ depth ih =>
    intro directory place n hn hlocate
    rw [walkBelow_succ, shownPaths_eq hlocate]
    cases w.listing n with
    | error r => rfl
    | ok es =>
      have hentries := List.flatMap_congr fun e he => ih.entry hn hlocate he
      simp only [Except.map, placesBelow, List.map_append, List.map_map, List.map_flatMap,
        filter_map_flatMap, ← hentries]
      rfl

/-! ### Depth -/

/-- A bound for each of the items of a list is a bound for all. -/
theorem exists_bound_of_forall {α : Type} {l : List α} {P : α → Nat → Prop}
    (hmono : ∀ a k k', k ≤ k' → P a k → P a k') (h : ∀ a ∈ l, ∃ k, P a k) :
    ∃ k, ∀ a ∈ l, P a k := by
  induction l with
  | nil => exact ⟨0, nofun⟩
  | cons a l ih =>
    obtain ⟨hhead, htail⟩ := List.forall_mem_cons.mp h
    obtain ⟨k, hk⟩ := hhead
    obtain ⟨k', hk'⟩ := ih htail
    exact ⟨max k k', List.forall_mem_cons.mpr ⟨hmono a k _ (Nat.le_max_left ..) hk,
      fun b hb => hmono b k' _ (Nat.le_max_right ..) (hk' b hb)⟩⟩

/-- The names that lead to a place in a tree are no more than a number that the tree has. -/
theorem exists_height (n : Node) :
    ∃ height, ∀ names, (n.at? names).isSome → names.length ≤ height := by
  cases n with
  | file | link =>
    refine ⟨0, fun names h => ?_⟩
    cases names with
    | nil => exact Nat.le_refl 0
    | cons name names => cases h
  | directory info es =>
    have hentries : ∀ e ∈ es, ∃ height, ∀ names, (e.2.at? names).isSome → names.length ≤ height :=
      fun e he => exists_height e.2
    obtain ⟨height, hheight⟩ := exists_bound_of_forall
      (fun e k k' hle hk names h => Nat.le_trans (hk names h) hle) hentries
    refine ⟨height + 1, fun names h => ?_⟩
    cases names with
    | nil => exact Nat.zero_le _
    | cons name names =>
      obtain ⟨m, hm⟩ := Option.isSome_iff_exists.mp h
      rw [Node.at?_cons] at hm
      obtain ⟨child, hchild, hat⟩ := Option.bind_eq_some_iff.mp hm
      have hmem := Entries.mem_of_find?_eq_some hchild
      exact Nat.succ_le_succ (hheight _ hmem names (hat ▸ rfl))
termination_by sizeOf n
decreasing_by
  have hlt := List.sizeOf_lt_of_mem he
  obtain ⟨name, child⟩ := e
  simp only [Prod.mk.sizeOf_spec, Node.directory.sizeOf_spec] at hlt ⊢
  omega

/-- More levels than a tree has make no difference. -/
theorem placesBelow_of_le (h : n.WellNamed) (hfits : directory.utf8ByteSize ≤ greatestPath)
    {height depth : Nat} (hheight : ∀ names, (n.at? names).isSome → names.length ≤ height)
    (hle : height ≤ depth) :
    w.placesBelow hidden depth directory n = w.placesBelow hidden height directory n := by
  have hsublist : (w.placesBelow hidden height directory n).Sublist
      (w.placesBelow hidden depth directory n) := by
    induction hle with
    | refl => exact .refl _
    | step _ ih => exact ih.trans (placesBelow_sublist ..)
  have hsubset :
      w.placesBelow hidden depth directory n ⊆ w.placesBelow hidden height directory n := by
    intro names hmem
    have hreach := (mem_placesBelow_iff_inReach h hfits depth).mp hmem
    have hwithin : names.length ≤ height + 1 := Nat.le_succ_of_le (hheight names hreach.there)
    exact (mem_placesBelow_iff_inReach h hfits height).mpr { hreach with within := hwithin }
  have hsubperm := (nodup_placesBelow h w hidden depth directory).subperm hsubset
  exact (hsublist.eq_of_length_le hsubperm.length_le).symm

/-! ### Answers -/

/-- What walks answer below a directory, by the number of further levels: the paths of the places in
reach, each once and in the order of a walk; with one level more there are only further ones between
them, and levels beyond those of the tree add nothing. -/
structure WalksTree (w : World) (hidden : Bool) (directory : String) (n : Node)
    (paths : Nat → List String) : Prop where
  places : ∀ depth, ∃ places : List Location, paths depth = places.map (Path.below directory) ∧
    (∀ names, names ∈ places ↔ w.InReach hidden depth directory n names) ∧
    places.Pairwise ListedBefore
  nodup : ∀ depth, (paths depth).Nodup
  sublist : ∀ depth, (paths depth).Sublist (paths (depth + 1))
  ends : ∃ height, (∀ names, (n.at? names).isSome → names.length ≤ height) ∧
    ∀ depth, height ≤ depth → paths depth = paths height

/-- The places of the tree are those of a walk, in its order. -/
theorem walksTree_placesBelow (h : n.WellNamed) (hne : directory ≠ "")
    (hfits : directory.utf8ByteSize ≤ greatestPath) :
    w.WalksTree hidden directory n fun depth =>
      (w.placesBelow hidden depth directory n).map (Path.below directory) where
  places depth := ⟨_, rfl, fun _ => mem_placesBelow_iff_inReach h hfits depth,
    pairwise_placesBelow h w hidden depth directory⟩
  nodup depth := by
    have hnames : ∀ names ∈ w.placesBelow hidden depth directory n,
        ∀ name ∈ names, IsEntryName name := by
      intro names hmem
      have hreach := (mem_placesBelow_iff_inReach h hfits depth).mp hmem
      obtain ⟨m, hm⟩ := Option.isSome_iff_exists.mp hreach.there
      exact (h.at? hm).2
    refine List.Nodup.map_on (fun names hmem names' hmem' heq => ?_)
      (nodup_placesBelow h w hidden depth directory)
    exact Path.below_injective hne (hnames names hmem) (hnames names' hmem') heq
  sublist depth := (placesBelow_sublist w hidden depth directory n).map _
  ends := by
    obtain ⟨height, hheight⟩ := exists_height n
    exact ⟨height, hheight, fun depth hle => by rw [placesBelow_of_le h hfits hheight hle]⟩

/-- A walk fails where the directory cannot be listed, and only there. -/
theorem walkBelow_eq_error {r : Refusal} (h : w.entriesAt directory = .error r) (depth : Nat) :
    w.walkBelow hidden depth directory = .error r := by
  have hshown : w.shownPaths hidden directory = .error r := by
    rw [shownPaths, h]
    rfl
  cases depth with
  | zero => rw [walkBelow, hshown]
  | succ depth =>
    rw [walkBelow_succ, hshown]
    rfl

/-- Where the directory can be listed, a walk answers as the tree tells. -/
theorem exists_walksTree (hw : w.root.WellNamed) {es : Entries Node}
    (h : w.entriesAt directory = .ok es) (hidden : Bool) :
    ∃ place n paths, w.locate directory = .ok (place, n) ∧
      (∀ depth, w.walkBelow hidden depth directory = .ok (paths depth)) ∧
      w.WalksTree hidden directory n paths := by
  rw [entriesAt] at h
  cases hlocate : w.locate directory with
  | error r =>
    rw [hlocate] at h
    cases h
  | ok found =>
    obtain ⟨place, n⟩ := found
    rw [hlocate] at h
    have hlisting : w.listing n = .ok es := h
    have hn := wellNamed_of_locate hw hlocate
    obtain ⟨-, hne, hfits⟩ :=
      checkPath_eq_ok_iff.mp (find_eq_ok_iff.mp (locate_eq_ok_iff.mp hlocate)).1
    refine ⟨place, n, _, rfl, fun depth => ?_, walksTree_placesBelow hn hne hfits⟩
    rw [walksByTree w hidden depth hn hlocate, hlisting]
    rfl

/-- No path is listed twice. -/
theorem nodup_of_walkBelow (hw : w.root.WellNamed) {depth : Nat} {paths : List String}
    (h : w.walkBelow hidden depth directory = .ok paths) : paths.Nodup := by
  cases hentries : w.entriesAt directory with
  | error r =>
    rw [walkBelow_eq_error hentries] at h
    cases h
  | ok es =>
    obtain ⟨_, _, _, -, hwalk, htree⟩ := exists_walksTree hw hentries hidden
    rw [hwalk depth] at h
    exact Except.ok.inj h ▸ htree.nodup depth

end World

end ScriptShell
