import Mathlib
import ScriptShell.Function.FileAccess
import ScriptShell.Proofs.Files.Walking

/-!
# Searches through files

A search walks through a directory and reads the files that the walk lists. It finds each line that
holds the text once, and gives what it finds in the order of the walk and, within a file, in the
order of the lines.
-/

namespace ScriptShell

/-- A line that holds the text that is searched for, with its number from zero on. -/
structure Hit where
  path : String
  number : Nat
  line : List Char

namespace Hit

/-- A hit as a search gives it back. -/
def value (w : World) (h : Hit) : Value :=
  .dict [
    ("name", .str ((Path.name? h.path).getD h.path)),
    ("path", .str (Builtin.wholePath w h.path)),
    ("line_number", .int (Integer.clamp h.number)),
    ("line", .str (String.ofList h.line))]

/-- A line of a readable file among some paths holds a text. -/
def IsIn (w : World) (needle : String) (paths : List String) (h : Hit) : Prop :=
  h.path ∈ paths ∧ w.hasFile h.path ∧ ∃ content, w.readText h.path = .ok content ∧
    (Text.lines content.toList)[h.number]? = some h.line ∧ needle.toList <:+: h.line

/-- A hit comes before another one: its path does among some paths, or they are in one file and its
line does. -/
def Before (paths : List String) (h h' : Hit) : Prop :=
  [h.path, h'.path].Sublist paths ∨ h.path = h'.path ∧ h.number < h'.number

/-- Among paths that are all different, no hit comes before itself. -/
theorem Before.ne {paths : List String} (hpaths : paths.Nodup) {h h' : Hit}
    (hbefore : Before paths h h') : h ≠ h' := by
  rintro rfl
  obtain hsub | ⟨-, hlt⟩ := hbefore
  · exact List.pairwise_iff_forall_sublist.mp hpaths hsub rfl
  · exact Nat.lt_irrefl _ hlt

end Hit

namespace Builtin

variable {w : World} {needle path : String}

/-- The hits in the file at a path. -/
def hitsAt (w : World) (needle path : String) : List Hit :=
  match w.readText path with
  | .error _ => []
  | .ok content => (Text.lines content.toList).zipIdx.filterMap fun (line, number) =>
      if (String.ofList line).contains needle then some ⟨path, number, line⟩ else none

theorem hitsIn_eq (w : World) (needle path : String) :
    hitsIn w needle path = (hitsAt w needle path).map (Hit.value w) := by
  unfold hitsIn hitsAt
  cases w.readText path with
  | error r => rfl
  | ok content =>
    rw [List.map_filterMap]
    refine List.filterMap_congr fun (line, number) _ => ?_
    dsimp only
    split <;> rfl

/-- The hits in a file are its lines that hold the text. -/
theorem mem_hitsAt_iff {h : Hit} :
    h ∈ hitsAt w needle path ↔ h.path = path ∧ ∃ content, w.readText path = .ok content ∧
      (Text.lines content.toList)[h.number]? = some h.line ∧ needle.toList <:+: h.line := by
  unfold hitsAt
  cases w.readText path with
  | error r => simp
  | ok content =>
    obtain ⟨at', number, line⟩ := h
    simp only [List.mem_filterMap, List.mem_zipIdx_iff_getElem?, String.contains_string_iff,
      String.toList_ofList, Prod.exists, Except.ok.injEq, exists_eq_left']
    constructor
    · rintro ⟨line', number', hline, hhit⟩
      split at hhit
      · next hcontains =>
        cases hhit
        exact ⟨rfl, hline, hcontains⟩
      · cases hhit
    · rintro ⟨rfl, hline, hcontains⟩
      exact ⟨line, number, hline, if_pos hcontains⟩

/-- The hits in one file are in the order of its lines. -/
theorem pairwise_hitsAt (w : World) (needle path : String) :
    (hitsAt w needle path).Pairwise fun h h' => h.path = h'.path ∧ h.number < h'.number := by
  unfold hitsAt
  cases w.readText path with
  | error r => exact .nil
  | ok content =>
    have hnumbers : (Text.lines content.toList).zipIdx.Pairwise fun l l' => l.2 < l'.2 := by
      rw [← List.pairwise_map, List.zipIdx_map_snd]
      exact List.pairwise_lt_range'
    refine hnumbers.filterMap _ fun (line, number) (line', number') hlt h hl h' hl' => ?_
    dsimp only at hl hl'
    split at hl <;> cases hl
    split at hl' <;> cases hl'
    exact ⟨rfl, hlt⟩

/-- A search through paths finds the lines of the readable files among them that hold the text. -/
theorem exists_hits (w : World) (needle : String) (paths : List String) :
    ∃ hits : List Hit,
      (paths.filter w.hasFile).flatMap (hitsIn w needle) = hits.map (Hit.value w) ∧
      hits.Pairwise (Hit.Before paths) ∧ ∀ h, h ∈ hits ↔ h.IsIn w needle paths := by
  refine ⟨(paths.filter w.hasFile).flatMap (hitsAt w needle), ?_, ?_, fun h => ?_⟩
  · rw [List.map_flatMap]
    exact List.flatMap_congr fun path _ => hitsIn_eq w needle path
  · refine List.pairwise_flatMap.mpr ⟨fun path _ => ?_, ?_⟩
    · exact (pairwise_hitsAt w needle path).imp .inr
    · refine List.pairwise_iff_forall_sublist.mpr fun {path path'} hsub h hh h' hh' => ?_
      rw [← (mem_hitsAt_iff.mp hh).1, ← (mem_hitsAt_iff.mp hh').1] at hsub
      exact .inl (hsub.trans List.filter_sublist)
  · simp only [List.mem_flatMap, List.mem_filter, mem_hitsAt_iff, Hit.IsIn]
    constructor
    · rintro ⟨path, ⟨hmem, hfile⟩, rfl, hline⟩
      exact ⟨hmem, hfile, hline⟩
    · rintro ⟨hmem, hfile, hline⟩
      exact ⟨h.path, ⟨hmem, hfile⟩, rfl, hline⟩

/-- The number of levels that a search goes down. -/
def levelsAsked (args : List Value) : Nat :=
  if args[2]?.any Value.isTruthy then allLevels else 0

/-- What a search for a text down to some level below a directory has to answer: it fails where the
directory cannot be listed, and otherwise it gives the lines with the text in the readable files
that the walk lists, each once and in order. -/
def AnswersSearch (w : World) (needle directory : String) (depth : Nat) (answer : Effect) : Prop :=
  (∀ r, w.entriesAt directory = .error r →
    answer = (.error (.path .list directory r.message), w)) ∧
  ∀ paths, w.walkBelow false depth directory = .ok paths →
    ∃ hits : List Hit, answer = (.ok (.list (hits.map (Hit.value w))), w) ∧
      hits.Nodup ∧ hits.Pairwise (Hit.Before paths) ∧ ∀ h, h ∈ hits ↔ h.IsIn w needle paths

/-- A search answers as it has to. -/
theorem answersSearch (hw : w.root.WellNamed) {args : List Value} {directory : String}
    (hcount : checkCount .search 1 3 args = .ok ())
    (hneedle : textArg .search (args.headD .none) = .ok needle)
    (hdirectory : directoryArg .search args[1]? = .ok directory) :
    AnswersSearch w needle directory (levelsAsked args) (accessFiles .search args w) := by
  have hsearch : runSearch args w =
      (onPath .list directory (w.walkBelow false (levelsAsked args) directory)).map fun paths =>
        .list ((paths.filter w.hasFile).flatMap (hitsIn w needle)) := by
    simp only [levelsAsked, runSearch, hcount, hneedle, hdirectory, bind, Except.bind, pure,
      Except.pure]
    split
    · next hpaths => rw [hpaths]; rfl
    · next hpaths => rw [hpaths]; rfl
  rw [accessFiles, looking, hsearch]
  refine ⟨fun r hr => ?_, fun paths hpaths => ?_⟩
  · rw [World.walkBelow_eq_error hr]
    rfl
  · obtain ⟨hits, hvalues, hordered, hmem⟩ := exists_hits w needle paths
    have hnodup := hordered.imp (Hit.Before.ne (World.nodup_of_walkBelow hw hpaths))
    refine ⟨hits, ?_, hnodup, hordered, hmem⟩
    rw [hpaths, ← hvalues]
    rfl

end Builtin

/-- Over a tree with proper names, walks below a directory fail if it cannot be listed, and only
then. Otherwise they list, each once and in order, the places that are reached from it by as many
descents as they have levels, through directories that are no links and that can be read by their
paths, and without names that start with a dot unless that is asked for. A directory can be read by
its path if the user may read it and go through all those that lead to it, and the system takes the
path. One level more only adds to the list, and levels beyond those of the tree add nothing, so that
a walk to all levels comes to an end, though links may lead back. A search finds each line with the
text in the readable files of the list once, in order. -/
theorem walk_lists_each_entry_once {w : World} (hw : w.root.WellNamed) (directory : String) :
    (∀ hidden r, w.entriesAt directory = .error r →
      ∀ depth, w.walkBelow hidden depth directory = .error r) ∧
    (∀ hidden es, w.entriesAt directory = .ok es →
      ∃ place n paths, w.locate directory = .ok (place, n) ∧
        (∀ depth, w.walkBelow hidden depth directory = .ok (paths depth)) ∧
        w.WalksTree hidden directory n paths) ∧
    ∀ args needle, Builtin.checkCount .search 1 3 args = .ok () →
      Builtin.textArg .search (args.headD .none) = .ok needle →
      Builtin.directoryArg .search args[1]? = .ok directory →
      Builtin.AnswersSearch w needle directory (Builtin.levelsAsked args)
        (Builtin.accessFiles .search args w) :=
  ⟨fun _ _ => World.walkBelow_eq_error, fun hidden _ h => World.exists_walksTree hw h hidden,
    fun _ _ => Builtin.answersSearch hw⟩

/-- A directory with a file and a link that leads back out of it, beside one that is not shown and
one that the user may read but not go through: what this one holds is listed, but not what is below
that. -/
theorem walk_lists_each_entry_once_link :
    let info : FileInfo := ⟨0o755, 0, 0⟩
    let visible : Node := .directory info [("back", .link ".."), ("b", .file info [])]
    let closed : Node := .directory ⟨0o444, 0, 0⟩ [("e", visible)]
    let root : Node := .directory info [("a", visible), (".c", .directory info []), ("d", closed)]
    let w : World := (⟨root, [], "/", 0, false⟩ : Machine).bare
    w.root.WellNamed ∧
      w.entriesAt "/" = .ok [(".c", .directory info []), ("a", visible), ("d", closed)] ∧
      w.walkBelow false 1 "/" = .ok ["/a", "/d", "/a/b", "/a/back", "/d/e"] ∧
      w.walkBelow false 1 "/d" = .ok ["/d/e"] ∧
      ∃ place n paths, w.locate "/" = .ok (place, n) ∧
        (∀ depth, w.walkBelow false depth "/" = .ok (paths depth)) ∧
        w.WalksTree false "/" n paths := by
  intro info visible closed root w
  have hvisible : visible.WellNamed :=
    .directory info (by decide) (by decide) (List.forall_mem_cons.mpr
      ⟨.link "..", List.forall_mem_singleton.mpr (.file info [])⟩)
  have hclosed : closed.WellNamed :=
    .directory _ (by decide) (by decide) (List.forall_mem_singleton.mpr hvisible)
  have hhidden : Node.WellNamed (.directory info []) := .directory info (by decide) nofun nofun
  have hw : w.root.WellNamed :=
    .directory info (by decide) (by decide) (List.forall_mem_cons.mpr ⟨hvisible,
      List.forall_mem_cons.mpr ⟨hhidden, List.forall_mem_singleton.mpr hclosed⟩⟩)
  have hentries : w.entriesAt "/" =
      .ok [(".c", .directory info []), ("a", visible), ("d", closed)] := by cbv
  have hwalk : w.walkBelow false 1 "/" = .ok ["/a", "/d", "/a/b", "/a/back", "/d/e"] := by cbv
  have hclosedWalk : w.walkBelow false 1 "/d" = .ok ["/d/e"] := by cbv
  exact ⟨hw, hentries, hwalk, hclosedWalk, (walk_lists_each_entry_once hw "/").2.1 false _ hentries⟩

end ScriptShell
