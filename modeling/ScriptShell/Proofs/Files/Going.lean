import Mathlib
import ScriptShell.Function.FileAccess
import ScriptShell.Proofs.Files.Walking

/-!
# Going to directories

A directory is gone to by its path, or by the end of the path of a directory that is the home
directory or stands on one of the levels below it that are searched. Which directories these are,
and in which order, is told by the tree. Nothing else is ever gone to, and what fails leaves the
working directory as it is.
-/

namespace ScriptShell

namespace World

variable {w : World} {home : String} {place : Location} {n : Node} {names : Location}

/-! ### Levels -/

/-- A directory below the home directory can be looked through: it can be listed, and the user may
go through it to what it holds. -/
structure CanLookThrough (w : World) (home : String) (n : Node) (names : Location) : Prop
    extends CanList w home n names where
  passes : (n.at? names).any (Node.passes w.privileged)

/-- Names that lead down from the home directory, through directories that can be looked through;
none of them starts with a dot. -/
structure LeadsDown (w : World) (home : String) (n : Node) (level : Nat) (names : Location) :
    Prop where
  length : names.length = level
  through : ∀ front, front <+: names → front ≠ names → w.CanLookThrough home n front
  visible : ∀ name ∈ names, ¬Path.isHidden name

/-- A directory on a level below the home directory that can be gone to by a part of its path: it is
no link to one, and the system takes its path. -/
structure IsCandidate (w : World) (home : String) (n : Node) (level : Nat) (names : Location) : Prop
    extends LeadsDown w home n level names where
  directory : (n.at? names).any Node.isDirectory
  taken : (Path.below home names).utf8ByteSize ≤ greatestPath

/-- The visible directories right below a place below the home directory. -/
def subdirectories (w : World) (home : String) (n : Node) (names : Location) : List Location :=
  match n.at? names with
  | none => []
  | some m =>
    let entries := (w.shownOf false m).filter fun e =>
      e.2.isDirectory && (m.passes w.privileged &&
        decide ((Path.join (Path.below home names) e.1).utf8ByteSize ≤ greatestPath))
    entries.map fun e => names ++ [e.1]

/-- The places on a level below the home directory, as the tree tells. -/
def placesOnLevel (w : World) (home : String) (n : Node) : Nat → List Location
  | 0 => [[]]
  | level + 1 => (w.placesOnLevel home n level).flatMap (w.subdirectories home n)

/-- The subdirectories of a directory that the user may go through are its entries that are shown
and directories, where the system takes their paths. -/
theorem mem_subdirectories_iff {names' : Location} :
    names' ∈ w.subdirectories home n names ↔
      ∃ m, n.at? names = some m ∧ m.passes w.privileged ∧
        ∃ e ∈ w.shownOf false m, e.2.isDirectory ∧
        (Path.join (Path.below home names) e.1).utf8ByteSize ≤ greatestPath ∧
        names' = names ++ [e.1] := by
  rw [subdirectories]
  cases n.at? names with
  | none => exact ⟨nofun, nofun⟩
  | some m =>
    simp only [List.mem_map, List.mem_filter, Bool.and_eq_true, decide_eq_true_eq,
      Option.some.injEq, exists_eq_left']
    constructor
    · rintro ⟨e, ⟨he, hdirectory, hpass, hfits⟩, rfl⟩
      exact ⟨hpass, e, he, hdirectory, hfits, rfl⟩
    · rintro ⟨hpass, e, he, hdirectory, hfits, rfl⟩
      exact ⟨e, ⟨he, hdirectory, hpass, hfits⟩, rfl⟩

/-- A level holds the subdirectories of the places on the level above. -/
theorem mem_placesOnLevel_succ_iff {level : Nat} :
    names ∈ w.placesOnLevel home n (level + 1) ↔
      ∃ front ∈ w.placesOnLevel home n level, names ∈ w.subdirectories home n front :=
  List.mem_flatMap

/-- The paths of the places on a level lead to them. -/
theorem locate_of_mem_placesOnLevel (hw : w.root.WellNamed) (h : w.locate home = .ok (place, n))
    {level : Nat} (hmem : names ∈ w.placesOnLevel home n level) :
    ∃ place' m, n.at? names = some m ∧ w.locate (Path.below home names) = .ok (place', m) := by
  induction level generalizing names with
  | zero =>
    cases List.mem_singleton.mp hmem
    exact ⟨place, n, rfl, h⟩
  | succ level ih =>
    obtain ⟨front, hfront, hmem⟩ := mem_placesOnLevel_succ_iff.mp hmem
    obtain ⟨m, hm, hpass, e, he, hdirectory, hfits, rfl⟩ := mem_subdirectories_iff.mp hmem
    obtain ⟨place', m', hm', hlocate⟩ := ih hfront
    cases hm.symm.trans hm'
    obtain ⟨info, es, rfl, -, hentry, -⟩ := mem_shownOf_iff.mp he
    cases wellNamed_of_locate hw hlocate with
    | directory _ hdistinct hnames =>
      have hchild := (Entries.find?_eq_some_iff_mem hdistinct).mpr hentry
      refine ⟨place' ++ [e.1], e.2, ?_, ?_⟩
      · rw [Node.at?_append, hm, Option.bind_some, Node.at?_cons, hchild]
        rfl
      · rw [Path.below_concat]
        exact locate_join hlocate (hnames e hentry) hchild hpass hdirectory hfits

/-- The next level is that of the tree. -/
theorem directoriesBelow_eq (hw : w.root.WellNamed) (h : w.locate home = .ok (place, n))
    (level : Nat) :
    w.directoriesBelow ((w.placesOnLevel home n level).map (Path.below home)) =
      (w.placesOnLevel home n (level + 1)).map (Path.below home) := by
  rw [directoriesBelow, placesOnLevel, List.flatMap_map, List.map_flatMap]
  refine List.flatMap_congr fun names hmem => ?_
  obtain ⟨place', m, hm, hlocate⟩ := locate_of_mem_placesOnLevel hw h hmem
  rw [shownPaths_eq hlocate, subdirectories, hm]
  cases hlisting : w.listing m with
  | error r =>
    have hshown : w.shownOf false m = [] := by rw [shownOf, hlisting]
    simp [Except.map, hshown]
  | ok es =>
    simp only [Except.map, List.filter_map, List.map_map, Function.comp_def, Path.below_concat]
    congr 1
    refine List.filter_congr fun e he => ?_
    obtain ⟨info, es, rfl, -, hentry, -⟩ := mem_shownOf_iff.mp he
    cases wellNamed_of_locate hw hlocate with
    | directory _ hdistinct hnames =>
      exact hasRealDirectory_join hlocate (hnames e hentry)
        ((Entries.find?_eq_some_iff_mem hdistinct).mpr hentry)

/-- Names lead one level further down if the directory they led to can be looked through. -/
theorem leadsDown_concat_iff {level : Nat} {name : String} :
    w.LeadsDown home n (level + 1) (names ++ [name]) ↔
      w.LeadsDown home n level names ∧ w.CanLookThrough home n names ∧ ¬Path.isHidden name := by
  constructor
  · rintro ⟨hlength, hthrough, hvisible⟩
    obtain ⟨hnames, hname⟩ := List.forall_mem_append.mp hvisible
    refine ⟨⟨?_, fun front hfront _ => ?_, hnames⟩, ?_, hname name (List.mem_singleton_self name)⟩
    · rwa [List.length_append, List.length_singleton, Nat.add_right_cancel_iff] at hlength
    · have hshorter := hfront.length_le
      refine hthrough front (hfront.trans (List.prefix_append ..)) fun heq => ?_
      rw [heq, List.length_append, List.length_singleton] at hshorter
      exact Nat.lt_irrefl _ hshorter
    · exact hthrough names (List.prefix_append ..) (by simp)
  · rintro ⟨⟨rfl, hthrough, hvisible⟩, hlist, hname⟩
    refine ⟨by simp, fun front hfront hne => ?_, ?_⟩
    · obtain rfl | hfront := List.prefix_concat_iff.mp hfront
      · exact absurd rfl hne
      · by_cases heq : front = names
        · exact heq ▸ hlist
        · exact hthrough front hfront heq
    · exact List.forall_mem_append.mpr ⟨hvisible, List.forall_mem_singleton.mpr hname⟩

/-- The places on a level are its candidates; on the level of the home directory it is the only
place. -/
theorem mem_placesOnLevel_iff (hn : n.WellNamed) (hhome : home.utf8ByteSize ≤ greatestPath)
    {level : Nat} :
    names ∈ w.placesOnLevel home n level ↔
      w.LeadsDown home n level names ∧ (names = [] ∨ w.IsCandidate home n level names) := by
  induction level generalizing names with
  | zero =>
    refine List.mem_singleton.trans ⟨?_, fun h => List.length_eq_zero_iff.mp h.1.length⟩
    rintro rfl
    exact ⟨⟨rfl, fun front hfront hne => absurd (List.prefix_nil.mp hfront) hne, nofun⟩, .inl rfl⟩
  | succ level ih =>
    rw [mem_placesOnLevel_succ_iff]
    constructor
    · rintro ⟨front, hfront, hmem⟩
      obtain ⟨m, hm, hpass, e, he, hdirectory, hfits, rfl⟩ := mem_subdirectories_iff.mp hmem
      obtain ⟨info, es, rfl, hread, hentry, hshown⟩ := mem_shownOf_iff.mp he
      obtain ⟨hleads, hcandidate⟩ := ih.mp hfront
      have htaken : (Path.below home front).utf8ByteSize ≤ greatestPath := by
        obtain rfl | hcandidate := hcandidate
        · exact hhome
        · exact hcandidate.taken
      have hvisible : ¬Path.isHidden e.1 := (isShown_iff.mp hshown).resolve_left Bool.false_ne_true
      have hlook : w.CanLookThrough home n front :=
        { readable := ⟨info, es, hm, hread⟩
          passed := fun above habove hne => (hleads.through above habove hne).passes
          fits := htaken
          passes := hm ▸ hpass }
      have hleads' : w.LeadsDown home n (level + 1) (front ++ [e.1]) :=
        leadsDown_concat_iff.mpr ⟨hleads, hlook, hvisible⟩
      refine ⟨hleads', .inr ⟨hleads', ?_, Path.below_concat home front e.1 ▸ hfits⟩⟩
      cases (hn.at? hm).1 with
      | directory _ hdistinct =>
        rw [Node.at?_append, hm, Option.bind_some, Node.at?_cons,
          (Entries.find?_eq_some_iff_mem hdistinct).mpr hentry]
        exact hdirectory
    · rintro ⟨hleads, hcandidate⟩
      obtain rfl | ⟨front, name, rfl⟩ := names.eq_nil_or_concat'
      · cases hleads.length
      obtain ⟨hfront, hlook, hvisible⟩ := leadsDown_concat_iff.mp hleads
      obtain ⟨-, hdirectory, htaken⟩ := hcandidate.resolve_left (by simp)
      obtain ⟨info, es, hm, hread⟩ := hlook.readable
      have hpass := hlook.passes
      rw [hm] at hpass
      rw [Node.at?_append, hm, Option.bind_some, Node.at?_cons] at hdirectory
      have hcandidate' : front = [] ∨ w.IsCandidate home n level front :=
        .inr ⟨hfront, hm ▸ rfl, hlook.fits⟩
      refine ⟨front, ih.mpr ⟨hfront, hcandidate'⟩, mem_subdirectories_iff.mpr ?_⟩
      cases hchild : Entries.find? name es with
      | none =>
        rw [hchild] at hdirectory
        cases hdirectory
      | some child =>
        rw [hchild] at hdirectory
        refine ⟨_, hm, hpass, (name, child), mem_shownOf_iff.mpr ⟨info, es, rfl, hread,
          Entries.mem_of_find?_eq_some hchild, isShown_iff.mpr (.inr hvisible)⟩,
          hdirectory, ?_, rfl⟩
        exact Path.below_concat home front name ▸ htaken

/-- The places on a level are in order: those below one place by their names, and otherwise as the
places on the level above. -/
theorem pairwise_placesOnLevel (hn : n.WellNamed) (hhome : home.utf8ByteSize ≤ greatestPath)
    (level : Nat) : (w.placesOnLevel home n level).Pairwise ListedBefore := by
  induction level with
  | zero => exact List.pairwise_singleton ..
  | succ level ih =>
    refine List.pairwise_flatMap.mpr ⟨fun names _ => ?_, ih.imp_of_mem ?_⟩
    · rw [subdirectories]
      cases hm : n.at? names with
      | none => exact .nil
      | some m =>
        refine List.pairwise_map.mpr (.filter _ ?_)
        exact (pairwise_shownOf (hn.at? hm).1 w false).imp (.entries names)
    · intro names names' hmem hmem' hbefore below hbelow below' hbelow'
      obtain ⟨-, -, -, e, -, -, -, rfl⟩ := mem_subdirectories_iff.mp hbelow
      obtain ⟨-, -, -, e', -, -, -, rfl⟩ := mem_subdirectories_iff.mp hbelow'
      have hlength := ((mem_placesOnLevel_iff hn hhome).mp hmem).1.length
      have hlength' := ((mem_placesOnLevel_iff hn hhome).mp hmem').1.length
      exact hbefore.concat (hlength.trans hlength'.symm) e.1 e'.1

/-! ### Candidates -/

/-- The directories that can be gone to by a part of their path: the candidates on the first level
below the home directory, the home directory itself, and the candidates on the second and the third
level, each level in order. -/
def AreCandidates (w : World) (candidates : List String) : Prop :=
  ∃ level : Nat → List Location,
    candidates = (level 1).map (Path.below w.home) ++ w.home ::
      ((level 2).map (Path.below w.home) ++ (level 3).map (Path.below w.home)) ∧
    ∀ k, (level k).Pairwise ListedBefore ∧ (1 ≤ k → ∀ names, names ∈ level k ↔
      ∃ place n, w.locate w.home = .ok (place, n) ∧ w.IsCandidate w.home n k names)

/-- The candidates are the directories in home, home itself, and two more levels of directories. -/
theorem homeDirectories_eq (w : World) :
    w.homeDirectories = w.directoriesBelow [w.home] ++ w.home ::
      (w.directoriesBelow (w.directoriesBelow [w.home]) ++
        w.directoriesBelow (w.directoriesBelow (w.directoriesBelow [w.home]))) := by
  simp [homeDirectories, searchedLevels, directoryLevels]

/-- The directories that are searched are the candidates, in order, whether the home directory is
there or not. -/
theorem areCandidates_homeDirectories (hw : w.root.WellNamed) :
    w.AreCandidates w.homeDirectories := by
  rw [homeDirectories_eq]
  cases hlocate : w.locate w.home with
  | error r =>
    have hnone : w.directoriesBelow [w.home] = [] := by
      simp [directoriesBelow, shownPaths, entriesAt, hlocate, bind, Except.bind]
    refine ⟨fun _ => [], ?_, fun k => ⟨.nil, fun _ names => ⟨(absurd · List.not_mem_nil), ?_⟩⟩⟩
    · rw [hnone]
      rfl
    · rintro ⟨place, n, hfound, -⟩
      cases hlocate.symm.trans hfound
  | ok found =>
    obtain ⟨place, n⟩ := found
    obtain ⟨-, -, hhome⟩ :=
      checkPath_eq_ok_iff.mp (find_eq_ok_iff.mp (locate_eq_ok_iff.mp hlocate)).1
    have hn := wellNamed_of_locate hw hlocate
    refine ⟨w.placesOnLevel w.home n, ?_, fun k =>
      ⟨pairwise_placesOnLevel hn hhome k, fun hk names => ?_⟩⟩
    · have hnext := directoriesBelow_eq hw hlocate
      have hfirst : w.directoriesBelow [w.home] = _ := hnext 0
      rw [hfirst, hnext 1, hnext 2]
    · rw [mem_placesOnLevel_iff hn hhome]
      constructor
      · rintro ⟨hleads, rfl | hcandidate⟩
        · exact absurd hk (hleads.length ▸ Nat.not_succ_le_zero 0)
        · exact ⟨place, n, hlocate, hcandidate⟩
      · rintro ⟨_, _, hfound, hcandidate⟩
        cases hlocate.symm.trans hfound
        exact ⟨hcandidate.toLeadsDown, .inr hcandidate⟩

/-! ### Going -/

/-- A path leads to a directory that the user may go through, at a place. -/
def Enters (w : World) (path : String) (place : Location) : Prop :=
  ∃ n, w.locate path = .ok (place, n) ∧ n.passes w.privileged

/-- A path is a candidate that ends with a text, and none before it does. -/
def IsFirstEnding (target : String) (candidates : List String) (directory : String) : Prop :=
  ∃ before after, candidates = before ++ directory :: after ∧
    target.toList <:+ directory.toList ∧ ∀ other ∈ before, ¬target.toList <:+ other.toList

/-- A directory that can be entered is the working directory then. -/
theorem enter_of_enters {path : String} (h : w.Enters path place) :
    w.enter path = .ok { w with workDirectory := place } := by
  obtain ⟨n, hlocate, hpass⟩ := h
  obtain ⟨info, es, rfl, hsearch⟩ := Node.exists_of_passes hpass
  rw [enter, hlocate]
  exact if_pos hsearch

/-- What leads to no directory, or to one that the user may not go through, is refused. -/
theorem exists_enter_error {path : String} (h : ∀ place, ¬w.Enters path place) :
    ∃ r, w.enter path = .error r := by
  rw [enter]
  cases hlocate : w.locate path with
  | error r => exact ⟨r, rfl⟩
  | ok found =>
    obtain ⟨place, n⟩ := found
    cases n with
    | directory info es =>
      exact ⟨.denied, if_neg fun hsearch => h place ⟨_, hlocate, hsearch⟩⟩
    | file | link => exact ⟨.notDirectory, rfl⟩

/-- Going nowhere leaves the world as it is. -/
theorem eq_of_goTo_error {path : String} {refused : String × Refusal} {w' : World}
    (h : w.goTo path = (.error refused, w')) : w' = w := by
  rw [goTo] at h
  split at h
  · cases h
  · split at h
    · exact (Prod.mk.inj h).2.symm
    · split at h
      · cases h
      · exact (Prod.mk.inj h).2.symm

/-- A text that is not empty finds the first directory that ends with it. -/
theorem findDirectory_eq_some_iff {target directory : String} (hne : target ≠ "") :
    w.findDirectory target = some directory ↔
      IsFirstEnding target w.homeDirectories directory := by
  have hempty : target.isEmpty = false := by simpa using hne
  rw [findDirectory, hempty, if_neg Bool.false_ne_true, List.find?_eq_some_iff_append]
  simp only [List.isSuffixOf_iff_suffix, IsFirstEnding, Bool.not_eq_true', ← Bool.not_eq_true]
  constructor
  · rintro ⟨hends, before, after, heq, hbefore⟩
    exact ⟨before, after, heq, hends, hbefore⟩
  · rintro ⟨before, after, heq, hends, hbefore⟩
    exact ⟨hends, before, after, heq, hbefore⟩

/-- No directory is found where none of the candidates ends with the target. -/
theorem findDirectory_eq_none_iff {target : String} (hne : target ≠ "") :
    w.findDirectory target = none ↔
      ∀ other ∈ w.homeDirectories, ¬target.toList <:+ other.toList := by
  have hempty : target.isEmpty = false := by simpa using hne
  rw [findDirectory, hempty, if_neg Bool.false_ne_true, List.find?_eq_none]
  simp only [List.isSuffixOf_iff_suffix]

end World

namespace Builtin

open World

variable {w : World} {args : List Value} {target : String}

/-- What going to a text has to come to. A directory that it leads to is entered. Failing that, and
unless the text is empty, the first candidate is entered whose path ends with it. What fails leaves
the world as it is, and names the path that could not be entered. -/
structure AnswersGoto (w : World) (target : String) (answer : Effect) : Prop where
  entered : ∀ place, w.Enters target place → answer = (.ok .none, { w with workDirectory := place })
  empty : (∀ place, ¬w.Enters target place) → target = "" →
    ∃ r : Refusal, answer = (.error (.path .enter target r.message), w)
  found : (∀ place, ¬w.Enters target place) → target ≠ "" →
    ∃ candidates, w.AreCandidates candidates ∧
      (∀ directory, IsFirstEnding target candidates directory →
        (∀ place, w.Enters directory place →
          answer = (.ok .none, { w with workDirectory := place })) ∧
        ((∀ place, ¬w.Enters directory place) →
          ∃ r : Refusal, answer = (.error (.path .enter directory r.message), w))) ∧
      ((∀ other ∈ candidates, ¬target.toList <:+ other.toList) →
        ∃ r : Refusal, answer = (.error (.path .enter target r.message), w))

/-- Going to a directory with arguments that name one. -/
theorem accessFiles_goto (hcount : checkCount .goto 0 1 args = .ok ())
    (htarget : args.head?.elim (.ok ".") (pathArg .goto) = .ok target) :
    accessFiles .goto args w = match w.goTo target with
      | (.ok (), w') => (.ok .none, w')
      | (.error (path, r), w') => (.error (.path .enter path r.message), w') := by
  rcases hgo : w.goTo target with ⟨⟨path, r⟩ | ⟨⟩, w'⟩
  · simp only [accessFiles, runGoto, hcount, htarget, hgo]
  · simp only [accessFiles, runGoto, hcount, htarget, hgo]

/-- Where going to a directory fails, for its arguments or for the path, the world is as it was. -/
theorem eq_of_goto_error {e : EvalError} {w' : World}
    (h : accessFiles .goto args w = (.error e, w')) : w' = w := by
  rw [accessFiles, runGoto] at h
  split at h
  · exact (Prod.mk.inj h).2.symm
  · exact (Prod.mk.inj h).2.symm
  · split at h
    · cases h
    · next hgo =>
      obtain ⟨-, rfl⟩ := Prod.mk.inj h
      exact eq_of_goTo_error hgo

/-- Going to a text comes to what it has to. -/
theorem answersGoto (hw : w.root.WellNamed) (hcount : checkCount .goto 0 1 args = .ok ())
    (htarget : args.head?.elim (.ok ".") (pathArg .goto) = .ok target) :
    AnswersGoto w target (accessFiles .goto args w) := by
  rw [accessFiles_goto hcount htarget]
  constructor
  · intro place h
    rw [goTo, enter_of_enters h]
  · rintro h rfl
    obtain ⟨r, hr⟩ := exists_enter_error h
    exact ⟨r, by rw [goTo, hr]; rfl⟩
  · intro h hne
    obtain ⟨r, hr⟩ := exists_enter_error h
    refine ⟨_, areCandidates_homeDirectories hw, fun directory hfirst => ?_, fun hnone => ?_⟩
    · have hfind := (findDirectory_eq_some_iff hne).mpr hfirst
      refine ⟨fun place h => ?_, fun h => ?_⟩
      · simp only [goTo, hr, hfind, enter_of_enters h]
      · obtain ⟨r', hr'⟩ := exists_enter_error h
        exact ⟨r', by simp only [goTo, hr, hfind, hr']⟩
    · have hfind := (findDirectory_eq_none_iff hne).mpr hnone
      exact ⟨r, by simp only [goTo, hr, hfind]⟩

end Builtin

/-- Going to a directory, over a tree with proper names. A path that leads to a directory that the
user may go through makes it the working directory; failing that the first of the candidates is
entered whose path ends with the text, if the user may go through it: the directories on the first
level below the home directory, the home directory, and those on the second and the third level, in
order, as far as they are reached without links and without names that start with a dot, through
directories that the user may read and go through. Whatever the arguments are, going nowhere leaves
the world as it is. -/
theorem goto_enters_first_match {w : World} (hw : w.root.WellNamed) (args : List Value) :
    (∀ target, Builtin.checkCount .goto 0 1 args = .ok () →
      args.head?.elim (.ok ".") (Builtin.pathArg .goto) = .ok target →
      Builtin.AnswersGoto w target (Builtin.accessFiles .goto args w)) ∧
    ∀ e w', Builtin.accessFiles .goto args w = (.error e, w') → w' = w :=
  ⟨fun _ hcount htarget => Builtin.answersGoto hw hcount htarget,
    fun _ _ h => Builtin.eq_of_goto_error h⟩

/-- From the root a directory below the home directory is gone to by its name, and one that the user
may not go through is not. -/
theorem goto_enters_first_match_name :
    let info : FileInfo := ⟨0o755, 0, 0⟩
    let closed : FileInfo := ⟨0o000, 0, 0⟩
    let home : Node := .directory info [("b", .directory info []), ("c", .directory closed [])]
    let root : Node := .directory info [("h", home)]
    let w : World := (⟨root, [], "/h", 0, false⟩ : Machine).bare
    w.root.WellNamed ∧
      Builtin.accessFiles .goto [.str "b"] w =
        (.ok .none, { w with workDirectory := ["h", "b"] }) ∧
      Builtin.AnswersGoto w "b" (Builtin.accessFiles .goto [.str "b"] w) ∧
      Builtin.accessFiles .goto [.str "c"] w =
        (.error (.path .enter "/h/c" Refusal.denied.message), w) := by
  intro info closed home root w
  have hempty (info : FileInfo) : Node.WellNamed (.directory info []) :=
    .directory info (by decide) nofun nofun
  have hhome : Node.WellNamed home :=
    .directory info (by decide) (by decide) (List.forall_mem_cons.mpr
      ⟨hempty info, List.forall_mem_singleton.mpr (hempty closed)⟩)
  have hw : w.root.WellNamed :=
    .directory info (by decide) (by decide) (List.forall_mem_singleton.mpr hhome)
  exact ⟨hw, by cbv, (goto_enters_first_match hw [.str "b"]).1 "b" rfl rfl, by cbv⟩

end ScriptShell
