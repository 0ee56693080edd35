import Mathlib
import ScriptShell.Function.FileAccess
import ScriptShell.Proofs.Files.Writing
import ScriptShell.Proofs.Token.LineEnds

/-!
# Copies of files

A copy opens its source, opens and empties the file that the target leads to, gives it the
permissions of the source, and then writes what it reads from the source. Where a file cannot be
opened the copy ends there, and nothing has changed. No other place of the tree changes, so every
path that led somewhere still leads there, and source and target can be read by the paths that they
were given by. Paths of one place can be spelled in many ways, by `.` and `..`, by links, or by the
directory that holds a file; a copy does not ask whether its two paths lead to one file, and a file
that is copied to itself is empty by the time that it is read.
-/

namespace ScriptShell

namespace World

variable {w : World} {path source target : String} {place targetPlace : Location} {n : Node}
  {info : FileInfo} {content : List UInt8}

/-! ### Places that can be written -/

/-- What a path leads to stands in the tree. -/
theorem standsIn_of_find {goal : Goal} {found : Found} (h : w.find goal path = .ok found) :
    found.StandsIn w.root :=
  (Node.walk_eq_ok_iff.mp (find_eq_ok_iff.mp h).2).standsIn

/-- The user may write to what is found: change it, or make it in its directory. -/
def MayWriteTo (w : World) : Found → Prop
  | .node _ n => n.info?.all w.mayWrite
  | .vacant parent _ => w.mayFill parent

/-- A path can be written that leads to anything but a directory, if the user may write to it. -/
theorem writable_eq_ok_iff : w.writable path = .ok place ↔
    ∃ found, w.find .make path = .ok found ∧ ¬found.IsDirectory ∧ w.MayWriteTo found ∧
      found.place = place := by
  rw [writable]
  rcases w.find .make path with r | found
  · simp [bind, Except.bind]
  · cases found with
    | node place' n =>
      by_cases hmay : n.info?.all w.mayWrite <;> cases hn : n.isDirectory <;>
        simp [bind, Except.bind, pure, Except.pure, Found.IsDirectory, Found.place, MayWriteTo, hn,
          hmay]
    | vacant parent name =>
      by_cases hmay : w.mayFill parent <;>
        simp [bind, Except.bind, pure, Except.pure, Found.IsDirectory, Found.place, MayWriteTo,
          hmay]

/-- A file fits where it may be written. -/
theorem takesFile_of_writable (h : w.writable path = .ok place) : w.root.TakesFile place := by
  obtain ⟨found, hfind, hnot, -, rfl⟩ := writable_eq_ok_iff.mp h
  exact Node.takesFile_of_standsIn (standsIn_of_find hfind) hnot

/-! ### Files that are written -/

/-- What is written is a file with the content. -/
theorem exists_fileNow (w : World) (before : Option Node) (content : List UInt8) :
    ∃ info, w.fileNow before content = .file info content := by
  unfold fileNow
  split <;> exact ⟨_, rfl⟩

/-- A directory that is marked as changed changes no outline. -/
theorem outlineAt_touch (h : w.root.IsDirectoryAt place) (other : Location) :
    (w.touch place).root.outlineAt other = w.root.outlineAt other := by
  obtain ⟨info, es, hat⟩ := h
  rw [touch, hat]
  exact Node.outlineAt_put_directory hat { info with modified := w.now } rfl other

theorem writeAt_eq_ite (w : World) (place : Location) (content : List UInt8) :
    w.writeAt place content =
      let written : World := { w with
        root := Node.put (w.fileNow (w.root.at? place) content) place w.root }
      if (w.root.at? place).isSome then written else written.touch place.dropLast := rfl

/-- Writing changes nothing of a world but its tree. -/
theorem writeAt_withRoot (w : World) (place : Location) (content : List UInt8) (root : Node) :
    { w.writeAt place content with root := root } = { w with root := root } := by
  rw [writeAt_eq_ite]
  split
  · rfl
  · unfold touch
    dsimp only
    split <;> rfl

/-- Other permissions change nothing of a world but its tree. -/
theorem setMode_withRoot (w : World) (place : Location) (mode : Nat) (root : Node) :
    { w.setMode place mode with root := root } = { w with root := root } := by
  unfold setMode
  split <;> rfl

/-- Writing bytes to a place writes a file there, and nothing else. -/
theorem exists_writtenAt (htakes : w.root.TakesFile place) (content : List UInt8) :
    ∃ info, Node.WrittenAt place info content w.root (w.writeAt place content).root := by
  obtain ⟨info, hinfo⟩ := w.exists_fileNow (w.root.at? place) content
  have hput := Node.writtenAt_put htakes info content
  refine ⟨info, ?_⟩
  rw [writeAt_eq_ite, hinfo]
  split
  · exact hput
  · next hnew =>
    -- A new file has a directory that holds it, which is marked as changed.
    have hdirectory : w.root.IsDirectoryAt place.dropLast := by
      refine htakes.parent.resolve_left fun hroot => hnew ?_
      rw [hroot]
      rfl
    have hne : place.dropLast ≠ place := fun heq => htakes.free (heq ▸ hdirectory)
    exact hput.of_outlineAt (outlineAt_touch (hdirectory.of_outlineAt_eq (hput.others _ hne)))

/-- Bytes that are written to a file that is there replace those that it has; its permissions
stay. -/
theorem writtenAt_file (hat : w.root.at? place = some (.file info content))
    (bytes : List UInt8) :
    Node.WrittenAt place { info with modified := w.now } bytes w.root
      (w.writeAt place bytes).root := by
  rw [writeAt_eq_ite, hat]
  exact Node.writtenAt_put (Node.takesFile_of_file hat) _ bytes

/-- Other permissions of a file change nothing else. -/
theorem writtenAt_setMode (hat : w.root.at? place = some (.file info content)) (mode : Nat) :
    Node.WrittenAt place { info with mode := mode } content w.root
      (w.setMode place mode).root := by
  rw [setMode, hat]
  exact Node.writtenAt_put (Node.takesFile_of_file hat) _ content

/-! ### Copies -/

/-- What a path leads to stands at its place. -/
theorem at?_of_locate (h : w.locate path = .ok (place, .file info content)) :
    w.root.at? place = some (.file info content) := by
  have hstands : Node.file info content = (w.root.at? place).getD Node.lost :=
    standsIn_of_find (locate_eq_ok_iff.mp h)
  cases hat : w.root.at? place with
  | none =>
    rw [hat] at hstands
    cases hstands
  | some n =>
    rw [hat] at hstands
    exact congrArg some hstands.symm

/-- What a copy writes to the target: what the source held, unless the target is the source, which
is empty by then. -/
def copied (place targetPlace : Location) (content : List UInt8) : List UInt8 :=
  if place = targetPlace then [] else content

/-- A copy keeps what the source held, unless it goes to the source and there is something to
lose. -/
theorem copied_eq_iff :
    copied place targetPlace content = content ↔ place ≠ targetPlace ∨ content = [] := by
  unfold copied
  split
  · next hsame => simp [hsame, eq_comm]
  · next hother => simp [hother]

/-- What is opened is a file that the user may read. -/
theorem openFile_eq_ok_iff : w.openFile path = .ok (place, info) ↔
    ∃ content, w.locate path = .ok (place, .file info content) ∧ w.mayRead info := by
  rw [openFile]
  rcases w.locate path with r | ⟨place', n⟩
  · simp [bind, Except.bind]
  · cases n with
    | file info' content =>
      by_cases hread : w.mayRead info'
      · simp only [bind, Except.bind, pure, Except.pure, hread, if_true]
        constructor
        · rintro ⟨⟩
          exact ⟨content, rfl, hread⟩
        · rintro ⟨content', ⟨⟩, -⟩
          rfl
      · simp only [bind, Except.bind, hread]
        refine ⟨nofun, ?_⟩
        rintro ⟨content', ⟨⟩, hread'⟩
        exact absurd hread' hread
    | directory info' es =>
      by_cases hread : w.mayRead info' <;> simp [bind, Except.bind, hread]
    | link target => simp [bind, Except.bind]

/-- The world after the target was emptied and given the permissions of the source. -/
def emptied (w : World) (targetPlace : Location) (info : FileInfo) : World :=
  (w.writeAt targetPlace []).setMode targetPlace info.mode

/-- A copy whose files can be opened empties the target and then writes to it what the source holds
then. -/
theorem copyFile_eq_ok (hopen : w.openFile source = .ok (place, info))
    (htarget : w.writable target = .ok targetPlace) :
    w.copyFile source target = (.ok (), { w with
      root := ((w.emptied targetPlace info).writeAt targetPlace
        ((w.emptied targetPlace info).bytesAt place)).root }) := by
  simp only [copyFile, hopen, htarget]
  exact congrArg (Prod.mk _)
    ((writeAt_withRoot ..).trans ((setMode_withRoot ..).trans (writeAt_withRoot ..)))

/-- An emptied target holds nothing, and has the permissions of the source. -/
theorem exists_writtenAt_emptied (htarget : w.writable target = .ok targetPlace)
    (info : FileInfo) : ∃ info', info'.mode = info.mode ∧
      Node.WrittenAt targetPlace info' [] w.root (w.emptied targetPlace info).root := by
  obtain ⟨emptyInfo, hempty⟩ := exists_writtenAt (takesFile_of_writable htarget) []
  exact ⟨{ emptyInfo with mode := info.mode }, rfl, hempty.trans
    (writtenAt_setMode (Node.outlineAt_eq_file_iff.mp hempty.written) info.mode)⟩

/-- What a copy reads from the source once the target is empty. -/
theorem bytesAt_emptied {info' : FileInfo}
    (hsource : w.root.at? place = some (.file info content))
    (hempty : Node.WrittenAt targetPlace info' [] w.root (w.emptied targetPlace info).root) :
    (w.emptied targetPlace info).bytesAt place = copied place targetPlace content := by
  unfold copied
  split
  · next hsame => rw [bytesAt, hsame, Node.outlineAt_eq_file_iff.mp hempty.written]
  · next hother =>
    have hthere := (hempty.others place hother).trans (Node.outlineAt_eq_file_iff.mpr hsource)
    rw [bytesAt, Node.outlineAt_eq_file_iff.mp hthere]

/-- A copy writes the target, with the permissions of the source, and nothing else. -/
theorem exists_copyFile (hsource : w.locate source = .ok (place, .file info content))
    (hread : w.mayRead info) (htarget : w.writable target = .ok targetPlace) :
    ∃ root info', w.copyFile source target = (.ok (), { w with root := root }) ∧
      info'.mode = info.mode ∧
      Node.WrittenAt targetPlace info' (copied place targetPlace content) w.root root := by
  obtain ⟨info', hmode, hempty⟩ := exists_writtenAt_emptied htarget info
  have hwritten := writtenAt_file (Node.outlineAt_eq_file_iff.mp hempty.written)
    (copied place targetPlace content)
  have hcopy := copyFile_eq_ok (openFile_eq_ok_iff.mpr ⟨content, hsource, hread⟩) htarget
  rw [bytesAt_emptied (at?_of_locate hsource) hempty] at hcopy
  exact ⟨_, { info' with modified := (w.emptied targetPlace info).now }, hcopy, hmode,
    hempty.trans hwritten⟩

/-- A copy is only made of a file that can be read, to a place that can be written. -/
theorem of_copyFile_eq_ok {w' : World} (h : w.copyFile source target = (.ok (), w')) :
    ∃ place info content targetPlace, w.locate source = .ok (place, .file info content) ∧
      w.mayRead info ∧ w.writable target = .ok targetPlace := by
  rw [copyFile] at h
  split at h
  · cases h
  · next place info hopen =>
    obtain ⟨content, hlocate, hread⟩ := openFile_eq_ok_iff.mp hopen
    split at h
    · cases h
    · next targetPlace htarget => exact ⟨place, info, content, targetPlace, hlocate, hread, htarget⟩

/-- A copy that is refused is refused before anything was changed. -/
theorem eq_of_copyFile_error {r : Refusal} {w' : World}
    (h : w.copyFile source target = (.error r, w')) : w' = w := by
  rw [copyFile] at h
  split at h
  · exact (Prod.mk.inj h).2.symm
  · split at h
    · exact (Prod.mk.inj h).2.symm
    · cases h

/-! ### Paths after a file was written -/

/-- The working directory stands in the tree. -/
def HasWorkDirectory (w : World) : Prop := w.root.IsDirectoryAt w.workDirectory

/-- Paths start at a directory. -/
theorem HasWorkDirectory.isStanding (h : w.HasWorkDirectory) (path : String) :
    w.root.IsStanding (w.start path) := by
  obtain ⟨info, es, hat⟩ := h
  exact Node.isStanding_base hat path

/-- A file can be put where it may be written. -/
theorem HasWorkDirectory.isFree (h : w.HasWorkDirectory) (hw : w.writable path = .ok place) :
    w.root.IsFree place where
  not_directory := (takesFile_of_writable hw).free
  ne_link link hlink := by
    obtain ⟨found, hfind, -, -, rfl⟩ := writable_eq_ok_iff.mp hw
    have hleads := Node.walk_eq_ok_iff.mp (find_eq_ok_iff.mp hfind).2
    exact hleads.ne_link nofun (h.isStanding path) link (Node.outlineAt_eq_link_iff.mp hlink)

/-- A path that can be written is found also where nothing is to be made. -/
theorem find_target_of_make {found : Found} (h : w.find .make path = .ok found)
    (hnot : ¬found.IsDirectory) : w.find .target path = .ok found := by
  obtain ⟨hcheck, hwalk⟩ := find_eq_ok_iff.mp h
  have hleads := Node.walk_eq_ok_iff.mp hwalk
  rw [Node.partsToWalk_make hleads hnot] at hleads
  exact find_eq_ok_iff.mpr ⟨hcheck, Node.walk_eq_ok_iff.mpr (hleads.target_of_make hnot)⟩

section

variable {root : Node} (hw : w.HasWorkDirectory)
  (hwritten : Node.WrittenAt targetPlace info content w.root root)
  (htarget : w.writable target = .ok targetPlace)
include hw hwritten htarget

/-- What a path led to is found again. -/
theorem find_again {found : Found} (h : w.find .target path = .ok found) :
    { w with root := root }.find .target path = .ok (found.again root) := by
  obtain ⟨hcheck, hwalk⟩ := find_eq_ok_iff.mp h
  have hleads := hwritten.leads (hw.isFree htarget) (hw.isStanding path)
    (Node.walk_eq_ok_iff.mp hwalk)
  exact find_eq_ok_iff.mpr ⟨hcheck, Node.walk_eq_ok_iff.mpr hleads⟩

/-- A path leads to the same place after what stands there has changed. -/
theorem locate_again (h : w.locate path = .ok (place, n)) {m : Node}
    (hm : root.at? place = some m) : { w with root := root }.locate path = .ok (place, m) := by
  have hfind := find_again hw hwritten htarget (locate_eq_ok_iff.mp h)
  have hagain : (Found.node place n).again root = .node place m := Found.again_eq hm
  rw [hagain] at hfind
  exact locate_eq_ok_iff.mpr hfind

/-- The path of the target leads to the file that was written. -/
theorem locate_written : { w with root := root }.locate target =
    .ok (targetPlace, .file info content) := by
  obtain ⟨found, hfind, hnot, -, rfl⟩ := writable_eq_ok_iff.mp htarget
  have hagain := find_again hw hwritten htarget (find_target_of_make hfind hnot)
  rw [Found.again_eq (Node.outlineAt_eq_file_iff.mp hwritten.written)] at hagain
  exact locate_eq_ok_iff.mpr hagain

end

/-- A file that may be read is read. -/
theorem readBytes_of_locate (h : w.locate path = .ok (place, .file info content))
    (hread : w.mayRead info) : w.readBytes path = .ok content := by
  rw [readBytes, h]
  exact if_pos hread

/-- A file with these bytes stands at a place. -/
def Holds (w : World) (place : Location) (content : List UInt8) : Prop :=
  ∃ info, w.root.at? place = some (.file info content)

/-- A place holds one content. -/
theorem Holds.eq {content' : List UInt8} (h : w.Holds place content)
    (h' : w.Holds place content') : content = content' := by
  obtain ⟨info, hat⟩ := h
  obtain ⟨info', hat'⟩ := h'
  cases hat.symm.trans hat'
  rfl

end World

namespace Builtin

open World

/-! ### What a copy loses -/

/-- A copy is asked for that can be made: the arguments are a source and where it is to go, the
source leads to a file that can be read, at a place and with its bytes, and the target, which is the
given path or below it, leads to a place that can be written. -/
structure CopyAsked (args : List Value) (w : World) (source target : String)
    (place targetPlace : Location) (content : List UInt8) : Prop where
  count : checkCount .copy 2 2 args = .ok ()
  source_eq : pathArg .copy (args.headD .none) = .ok source
  target_eq : ∃ given, textArg .copy (args.getD 1 .none) = .ok given ∧
    target = destination w source given
  readable : ∃ info, w.locate source = .ok (place, .file info content) ∧ w.mayRead info
  writable : w.writable target = .ok targetPlace

/-- After a copy the source and the target hold the given bytes, and reading them by their paths
gives these bytes, unless the working directory is lost. -/
structure BothHold (w after : World) (source target : String) (place targetPlace : Location)
    (content : List UInt8) : Prop where
  source_holds : after.Holds place content
  target_holds : after.Holds targetPlace content
  readBytes_source : w.HasWorkDirectory → after.readBytes source = .ok content
  readBytes_target : w.HasWorkDirectory → after.readBytes target = .ok content

variable {args : List Value} {w : World} {source target : String} {place targetPlace : Location}
  {content : List UInt8}

/-- Both hold what was written to the target. -/
theorem bothHold_of_writtenAt {root : Node} {info info' : FileInfo}
    (hsource : w.locate source = .ok (place, .file info content)) (hread : w.mayRead info)
    (htarget : w.writable target = .ok targetPlace) (hmode : info'.mode = info.mode)
    (hwritten : Node.WrittenAt targetPlace info'
      (copied place targetPlace content) w.root root) :
    BothHold w { w with root := root } source target place targetPlace
      (copied place targetPlace content) := by
  have hread' : { w with root := root }.mayRead info' := by
    exact (FileInfo.allows_congr hmode w.privileged .read).trans hread
  have htargetFile := Node.outlineAt_eq_file_iff.mp hwritten.written
  obtain ⟨sourceInfo, hsourceFile, hsourceRead⟩ : ∃ sourceInfo, root.at? place =
      some (.file sourceInfo (copied place targetPlace content)) ∧
      { w with root := root }.mayRead sourceInfo := by
    by_cases hsame : place = targetPlace
    · exact ⟨info', hsame ▸ htargetFile, hread'⟩
    · refine ⟨info, Node.outlineAt_eq_file_iff.mp ?_, hread⟩
      rw [copied, if_neg hsame, hwritten.others place hsame]
      exact Node.outlineAt_eq_file_iff.mpr (at?_of_locate hsource)
  exact
    { source_holds := ⟨sourceInfo, hsourceFile⟩
      target_holds := ⟨info', htargetFile⟩
      readBytes_source := fun hw =>
        readBytes_of_locate (locate_again hw hwritten htarget hsource hsourceFile) hsourceRead
      readBytes_target := fun hw =>
        readBytes_of_locate (locate_written hw hwritten htarget) hread' }

/-- A copy that is asked for is made. -/
theorem CopyAsked.exists_eq (h : CopyAsked args w source target place targetPlace content) :
    ∃ v root info', accessFiles .copy args w = (.ok v, { w with root := root }) ∧
      Node.WrittenAt targetPlace info' (copied place targetPlace content) w.root root ∧
      BothHold w { w with root := root } source target place targetPlace
        (copied place targetPlace content) := by
  obtain ⟨given, hgiven, rfl⟩ := h.target_eq
  obtain ⟨info, hsource, hread⟩ := h.readable
  obtain ⟨root, info', hcopy, hmode, hwritten⟩ := exists_copyFile hsource hread h.writable
  refine ⟨.str (source ++ " copied to " ++ given), root, info', ?_, hwritten,
    bothHold_of_writtenAt hsource hread h.writable hmode hwritten⟩
  simp only [accessFiles, runTransfer, h.count, h.source_eq, hgiven, hcopy]

/-- What is copied was asked for. -/
theorem exists_copyAsked {v : Value} {after : World}
    (h : accessFiles .copy args w = (.ok v, after)) :
    ∃ source target place targetPlace content,
      CopyAsked args w source target place targetPlace content := by
  rw [accessFiles, runTransfer] at h
  split at h
  · cases h
  · cases h
  · cases h
  · next source given hcount hsource hgiven =>
    split at h
    · next hcopy =>
      obtain ⟨place, info, content, targetPlace, hlocate, hread, htarget⟩ :=
        of_copyFile_eq_ok hcopy
      exact ⟨source, _, place, targetPlace, content, hcount, hsource, ⟨given, hgiven, rfl⟩,
        ⟨info, hlocate, hread⟩, htarget⟩
    · cases h

/-- A copy that fails, for its arguments or for the files, leaves the world as it was. -/
theorem eq_of_copy_error {e : EvalError} {after : World}
    (h : accessFiles .copy args w = (.error e, after)) : after = w := by
  rw [accessFiles, runTransfer] at h
  split at h
  · exact (Prod.mk.inj h).2.symm
  · exact (Prod.mk.inj h).2.symm
  · exact (Prod.mk.inj h).2.symm
  · split at h
    · cases h
    · next hcopy =>
      obtain ⟨-, rfl⟩ := Prod.mk.inj h
      exact eq_of_copyFile_error hcopy

end Builtin

open Builtin in
/-- Copying a file. A copy that fails leaves the world as it is. A copy is made exactly if its
arguments name a source that leads to a file that the user may read, and a target, which is the given
path or the name of the source in the directory that this leads to, where the user may write a file.
Then no other place than that of the target changes: every other file stands with its bytes, its
permissions and its times, every link with its target, and every directory with its permissions. And
the source and the target hold what the source held before, exactly if they are different places or
the source was empty: a file that is copied to itself, by whatever paths, is empty afterwards. -/
theorem copy_loses_nothing_iff (args : List Value) (w : World) :
    (∀ e after, accessFiles .copy args w = (.error e, after) → after = w) ∧
      ((∃ v after, accessFiles .copy args w = (.ok v, after)) ↔
        ∃ source target place targetPlace content,
          CopyAsked args w source target place targetPlace content) ∧
      ∀ source target place targetPlace content,
        CopyAsked args w source target place targetPlace content →
        ∀ v after, accessFiles .copy args w = (.ok v, after) →
          (∀ other, other ≠ targetPlace → after.root.outlineAt other = w.root.outlineAt other) ∧
          (BothHold w after source target place targetPlace content ↔
            place ≠ targetPlace ∨ content = []) ∧
          (place = targetPlace → after.Holds targetPlace []) := by
  refine ⟨fun e after => eq_of_copy_error, ⟨?_, ?_⟩, ?_⟩
  · rintro ⟨v, after, h⟩
    exact exists_copyAsked h
  · rintro ⟨source, target, place, targetPlace, content, hasked⟩
    obtain ⟨v, root, info, hcopy, -⟩ := hasked.exists_eq
    exact ⟨v, _, hcopy⟩
  · intro source target place targetPlace content hasked v after hafter
    obtain ⟨v', root, info, hcopy, hwritten, hhold⟩ := hasked.exists_eq
    cases hafter.symm.trans hcopy
    refine ⟨hwritten.others, ?_, ?_⟩
    · rw [← World.copied_eq_iff]
      constructor
      · intro hkept
        exact hhold.source_holds.eq hkept.source_holds
      · intro hsame
        rw [hsame] at hhold
        exact hhold
    · intro hsame
      have hempty := hhold.target_holds
      rwa [World.copied, if_pos hsame] at hempty

/-- A file is copied under another name, and is not copied to a file that the user may not change. -/
theorem copy_loses_nothing_iff_renamed :
    let root : Node := .directory ⟨0o755, 0, 0⟩
      [("a", .file ⟨0o644, 0, 0⟩ [120]), ("c", .file ⟨0o444, 0, 0⟩ [121])]
    let w : World := (⟨root, [], "/", 0, false⟩ : Machine).bare
    let args : List Value := [.str "a", .str "b"]
    Builtin.CopyAsked args w "a" "b" ["a"] ["b"] [120] ∧
      (∃ v after, Builtin.accessFiles .copy args w = (.ok v, after) ∧
        Builtin.BothHold w after "a" "b" ["a"] ["b"] [120]) ∧
      Builtin.accessFiles .copy [.str "a", .str "c"] w =
        (.error (.path .copy "a" Refusal.denied.message), w) := by
  intro root w args
  have hasked : Builtin.CopyAsked args w "a" "b" ["a"] ["b"] [120] :=
    ⟨rfl, rfl, ⟨"b", rfl, by cbv⟩, ⟨⟨0o644, 0, 0⟩, by cbv, by decide⟩, by cbv⟩
  obtain ⟨-, hmade, hkept⟩ := copy_loses_nothing_iff args w
  obtain ⟨v, after, hcopy⟩ := hmade.mpr ⟨_, _, _, _, _, hasked⟩
  have hhold := (hkept _ _ _ _ _ hasked v after hcopy).2.1.mpr (.inl (by decide))
  exact ⟨hasked, ⟨v, after, hcopy, hhold⟩, by cbv⟩

/-- A file is copied into the directory that it is in. The copy is reported as made, and the file is
empty. -/
theorem copy_into_own_directory_empties :
    let info : FileInfo := ⟨0o644, 0, 0⟩
    let root (content : List UInt8) : Node :=
      .directory ⟨0o755, 0, 0⟩ [("a", .file info content)]
    let w (content : List UInt8) : World := (⟨root content, [], "/", 0, false⟩ : Machine).bare
    (w [120]).readBytes "a" = .ok [120] ∧
      Builtin.accessFiles .copy [.str "a", .str "."] (w [120]) =
        (.ok (.str "a copied to ."), w []) ∧
      (w []).readBytes "a" = .ok [] := by
  intro info root w
  exact ⟨by cbv, by cbv, by cbv⟩

end ScriptShell
