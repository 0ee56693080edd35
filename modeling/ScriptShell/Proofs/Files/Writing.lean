import ScriptShell.Proofs.Files.Leading

/-!
# Trees in which a file was written

Writing a file changes a tree at the place of the file only: all other files and all links stand
where they stood, and directories stay directories with the permissions that they had. So a path
that led somewhere still leads there, and the path of a new file, which led to a free name, leads to
the file.
-/

namespace ScriptShell

/-- What is told of a node where it stands: all of a file or a link, and of a directory who may list
it, change it and go through it. -/
inductive Outline where
  | file (info : FileInfo) (content : List UInt8)
  | link (target : String)
  | directory (mode : Nat)
  deriving DecidableEq

/-- Rights are told by the permissions alone. -/
theorem FileInfo.allows_congr {info info' : FileInfo} (h : info'.mode = info.mode)
    (privileged : Bool) (right : Right) :
    info'.allows privileged right = info.allows privileged right := by
  rw [allows, allows, h]

namespace Node

/-- What is told of a node. -/
def outline : Node → Outline
  | .file info content => .file info content
  | .link target => .link target
  | .directory info _ => .directory info.mode

/-- What is told of the node at a place. -/
def outlineAt (place : Location) (root : Node) : Option Outline := (root.at? place).map outline

variable {root root' new : Node} {place other names rest : Location} {info info' : FileInfo}
  {content content' : List UInt8} {es : Entries Node} {target name : String}

/-- An outline tells a file as a whole. -/
theorem outlineAt_eq_file_iff : root.outlineAt place = some (.file info content) ↔
    root.at? place = some (.file info content) := by
  unfold outlineAt
  cases root.at? place with
  | none => simp
  | some n => cases n <;> simp [outline]

/-- An outline tells a link as a whole. -/
theorem outlineAt_eq_link_iff :
    root.outlineAt place = some (.link target) ↔ root.at? place = some (.link target) := by
  unfold outlineAt
  cases root.at? place with
  | none => simp
  | some n => cases n <;> simp [outline]

/-- An outline tells the permissions of a directory. -/
theorem outlineAt_eq_directory_iff {mode : Nat} : root.outlineAt place = some (.directory mode) ↔
    ∃ info es, root.at? place = some (.directory info es) ∧ info.mode = mode := by
  unfold outlineAt
  cases root.at? place with
  | none => simp
  | some n => cases n <;> simp [outline]

/-- A directory stands at a place. -/
def IsDirectoryAt (root : Node) (place : Location) : Prop :=
  ∃ info es, root.at? place = some (.directory info es)

/-- Where the outline is the same, a directory stands in both trees or in none. -/
theorem IsDirectoryAt.of_outlineAt_eq (h : root.IsDirectoryAt place)
    (hsame : root'.outlineAt other = root.outlineAt place) : root'.IsDirectoryAt other := by
  obtain ⟨info, es, hat⟩ := h
  obtain ⟨info', es', hat', -⟩ := outlineAt_eq_directory_iff.mp
    (hsame.trans (outlineAt_eq_directory_iff.mpr ⟨info, es, hat, rfl⟩))
  exact ⟨info', es', hat'⟩

/-- Nothing stands below what is no directory. -/
theorem at?_append_eq_none (h : ¬root.IsDirectoryAt place) (hrest : rest ≠ []) :
    root.at? (place ++ rest) = none := by
  rw [at?_append]
  cases hat : root.at? place with
  | none => rfl
  | some n =>
    obtain ⟨name, rest, rfl⟩ := List.exists_cons_of_ne_nil hrest
    cases n with
    | directory info es => exact absurd ⟨info, es, hat⟩ h
    | file | link => rfl

/-! ### Nodes that are put -/

/-- What holds a place is a directory that is there; nothing holds the root. -/
def HasParent (root : Node) (place : Location) : Prop :=
  place = [] ∨ root.IsDirectoryAt place.dropLast

/-- What stands somewhere has a parent. -/
theorem hasParent_of_at? {n : Node} (h : root.at? place = some n) : root.HasParent place :=
  exists_parent h

/-- On the way to a place with a parent there is a directory under every name. -/
theorem HasParent.exists_child
    (h : (directory info es).HasParent (name :: names)) (hnames : names ≠ []) :
    ∃ child, Entries.find? name es = some child ∧ child.HasParent names := by
  obtain h | ⟨info', es', h⟩ := h
  · cases h
  · rw [List.dropLast_cons_of_ne_nil hnames, at?_cons] at h
    obtain ⟨child, hchild, hat⟩ := Option.bind_eq_some_iff.mp h
    exact ⟨child, hchild, .inr ⟨info', es', hat⟩⟩

/-- What is put at a place stands there, with all that is below it. -/
theorem at?_put_append (h : root.HasParent names) (rest : Location) :
    (put new names root).at? (names ++ rest) = new.at? rest := by
  fun_induction put new names root with
  | case1 => rfl
  | case2 name info es =>
    rw [List.cons_append, at?_cons, Entries.find?_insert_self]
    rfl
  | case3 name names info es hnames child hchild ih =>
    obtain ⟨child', hchild', hparent⟩ := h.exists_child hnames
    cases hchild.symm.trans hchild'
    rw [List.cons_append, at?_cons, Entries.find?_insert_self, Option.bind_some, ih hparent]
  | case4 name names info es hnames hnone =>
    obtain ⟨child, hchild, -⟩ := h.exists_child hnames
    cases hnone.symm.trans hchild
  | case5 name names n _ hdirectory =>
    obtain h | ⟨info', es', h⟩ := h
    · cases h
    · -- The parent is the root or below it, and so the root is a directory.
      cases n with
      | directory info es => exact absurd rfl (hdirectory info es)
      | file | link => cases names <;> cases h

/-- What is put at a place changes nothing but what stands there and below. -/
theorem outlineAt_put_of_not_prefix (h : ¬names <+: other) :
    (put new names root).outlineAt other = root.outlineAt other := by
  fun_induction put new names root generalizing other with
  | case1 => exact absurd List.nil_prefix h
  | case2 name info es =>
    cases other with
    | nil => rfl
    | cons x xs =>
      have hne : x ≠ name := fun heq => h (List.cons_prefix_cons.mpr ⟨heq.symm, List.nil_prefix⟩)
      rw [outlineAt, outlineAt, at?_cons, at?_cons, Entries.find?_insert_of_ne hne]
  | case3 name names info es _ child hchild ih =>
    cases other with
    | nil => rfl
    | cons x xs =>
      rw [outlineAt, outlineAt, at?_cons, at?_cons]
      by_cases hx : x = name
      · subst hx
        have hbelow : ¬names <+: xs := fun hbelow => h (List.cons_prefix_cons.mpr ⟨rfl, hbelow⟩)
        rw [Entries.find?_insert_self, hchild, Option.bind_some, Option.bind_some]
        exact ih hbelow
      · rw [Entries.find?_insert_of_ne hx]
  | case4 => rfl
  | case5 => rfl

/-- A directory that is put in the place of one with the same entries and permissions changes no
outline. -/
theorem outlineAt_put_directory (h : root.at? names = some (.directory info es))
    (info' : FileInfo) (hmode : info'.mode = info.mode) (other : Location) :
    (put (.directory info' es) names root).outlineAt other = root.outlineAt other := by
  by_cases hbelow : names <+: other
  · obtain ⟨rest, rfl⟩ := hbelow
    rw [outlineAt, outlineAt, at?_put_append (hasParent_of_at? h), at?_append, h, Option.bind_some]
    cases rest with
    | nil => exact congrArg (fun mode => some (Outline.directory mode)) hmode
    | cons name rest => rw [at?_cons, at?_cons]
  · exact outlineAt_put_of_not_prefix hbelow

/-- A file can be put at a place: what holds it is there, and no directory stands at it. -/
structure TakesFile (root : Node) (place : Location) : Prop where
  parent : root.HasParent place
  free : ¬root.IsDirectoryAt place

/-- A file can be put where one stands. -/
theorem takesFile_of_file (h : root.at? place = some (.file info content)) :
    root.TakesFile place where
  parent := hasParent_of_at? h
  free := by
    rintro ⟨info', es, hat⟩
    cases h.symm.trans hat

/-- What is found, and is no directory, is found where a file can be put. -/
theorem takesFile_of_standsIn {found : Found} (h : found.StandsIn root)
    (hnot : ¬found.IsDirectory) : root.TakesFile found.place := by
  cases found with
  | node place n =>
    cases hat : root.at? place with
    | none =>
      -- A working directory that was lost is a directory.
      rw [Found.StandsIn, hat] at h
      exact absurd (h ▸ rfl) hnot
    | some m =>
      rw [Found.StandsIn, hat] at h
      refine ⟨hasParent_of_at? hat, fun hdirectory => hnot ?_⟩
      obtain ⟨info, es, hat'⟩ := hdirectory
      cases hat.symm.trans hat'
      exact h ▸ rfl
  | vacant parent name =>
    obtain ⟨info, es, hat, hfind⟩ := h
    refine ⟨.inr ?_, ?_⟩
    · rw [Found.place, List.dropLast_concat]
      exact ⟨info, es, hat⟩
    · rintro ⟨info', es', hat'⟩
      rw [Found.place, at?_concat hat, hfind] at hat'
      cases hat'

/-! ### Files that are written -/

/-- A tree in which a file was written at a place, and all else is as it was. -/
structure WrittenAt (place : Location) (info : FileInfo) (content : List UInt8)
    (before after : Node) : Prop where
  written : after.outlineAt place = some (.file info content)
  others : ∀ other, other ≠ place → after.outlineAt other = before.outlineAt other

theorem WrittenAt.trans {before between after : Node}
    (h : WrittenAt place info content before between)
    (h' : WrittenAt place info' content' between after) :
    WrittenAt place info' content' before after where
  written := h'.written
  others other hne := (h'.others other hne).trans (h.others other hne)

/-- A change that shows in no outline. -/
theorem WrittenAt.of_outlineAt {before after after' : Node}
    (h : WrittenAt place info content before after)
    (hsame : ∀ other, after'.outlineAt other = after.outlineAt other) :
    WrittenAt place info content before after' where
  written := (hsame place).trans h.written
  others other hne := (hsame other).trans (h.others other hne)

/-- A file is put where it can stand. -/
theorem writtenAt_put (htakes : root.TakesFile place) (info : FileInfo) (content : List UInt8) :
    WrittenAt place info content root (put (.file info content) place root) where
  written := by
    have hput : (put (.file info content) place root).at? (place ++ []) =
        some (.file info content) := at?_put_append htakes.parent []
    rw [List.append_nil] at hput
    exact outlineAt_eq_file_iff.mpr hput
  others other hne := by
    by_cases hbelow : place <+: other
    · -- Nothing stands below a file, and nothing stood there before.
      obtain ⟨rest, rfl⟩ := hbelow
      have hrest : rest ≠ [] := fun hnil => hne (by rw [hnil, List.append_nil])
      obtain ⟨name, rest, rfl⟩ := List.exists_cons_of_ne_nil hrest
      rw [outlineAt, outlineAt, at?_put_append htakes.parent, at?_append_eq_none htakes.free hrest]
      rfl
    · exact outlineAt_put_of_not_prefix hbelow

/-! ### Paths in a tree in which a file was written -/

end Node

/-- What is found again in another tree: what stands at the same place, and under a name that was
free what stands there now. -/
def Found.again (root : Node) : Found → Found
  | .node place _ => .node place ((root.at? place).getD Node.lost)
  | .vacant parent name =>
    match root.at? (parent ++ [name]) with
    | some n => .node (parent ++ [name]) n
    | none => .vacant parent name

theorem Found.again_eq {root n : Node} {found : Found} (h : root.at? found.place = some n) :
    found.again root = .node found.place n := by
  cases found with
  | node place n => exact congrArg (fun m => Found.node place (m.getD Node.lost)) h
  | vacant parent name =>
    rw [Found.place] at h
    rw [Found.again, h]
    rfl

namespace Node

/-- A place where no directory and no link stands. -/
structure IsFree (root : Node) (place : Location) : Prop where
  not_directory : ¬root.IsDirectoryAt place
  ne_link : ∀ target, root.outlineAt place ≠ some (.link target)

section

variable {root root' : Node} {privileged : Bool} {written place : Location}
  {info info' info'' : FileInfo}
  {content : List UInt8} {es es' : Entries Node}

section

variable (h : WrittenAt written info content root root')
  (hat : root.at? place = some (.directory info' es))
  (hat' : root'.at? place = some (.directory info'' es'))
include h hat hat'

/-- An entry that is not written to has the outline that it had. -/
theorem WrittenAt.outline_entry {name : String} (hne : place ++ [name] ≠ written) :
    (Entries.find? name es').map outline = (Entries.find? name es).map outline := by
  rw [← at?_concat hat, ← at?_concat hat']
  exact h.others _ hne

/-- An entry that is no link is still there, and no link. -/
theorem WrittenAt.exists_entry {name : String} {child : Node}
    (hfind : Entries.find? name es = some child) (hlink : ∀ target, child ≠ .link target) :
    ∃ child', Entries.find? name es' = some child' ∧ ∀ target, child' ≠ .link target := by
  have houtline : ∃ o, (Entries.find? name es').map outline = some o ∧
      ∀ target, o ≠ .link target := by
    by_cases hwritten : place ++ [name] = written
    · rw [← at?_concat hat', hwritten]
      exact ⟨_, h.written, nofun⟩
    · rw [h.outline_entry hat hat' hwritten, hfind]
      refine ⟨_, rfl, fun target heq => ?_⟩
      cases child with
      | link target' => exact hlink target' rfl
      | file | directory => cases heq
  obtain ⟨o, ho, hno⟩ := houtline
  obtain ⟨child', hchild', rfl⟩ := Option.map_eq_some_iff.mp ho
  exact ⟨child', hchild', fun target heq => hno target (heq ▸ rfl)⟩

/-- Under a name that was free stands the file that was written, if anything. -/
theorem WrittenAt.eq_file {name : String} {n : Node} (hfind : Entries.find? name es = none)
    (hfind' : Entries.find? name es' = some n) : n = .file info content := by
  by_cases hwritten : place ++ [name] = written
  · have hfile := outlineAt_eq_file_iff.mp h.written
    rw [← hwritten, at?_concat hat', hfind'] at hfile
    exact Option.some.inj hfile
  · have hnone := h.outline_entry hat hat' hwritten
    rw [hfind, hfind'] at hnone
    cases hnone

end

variable (h : WrittenAt written info content root root') (hfree : root.IsFree written)
include h hfree

/-- A directory is still there, with the permissions that it had. -/
theorem WrittenAt.exists_directory (hat : root.at? place = some (.directory info' es)) :
    ∃ info'' es'', root'.at? place = some (.directory info'' es'') ∧ info''.mode = info'.mode := by
  have hne : place ≠ written := fun heq => hfree.not_directory (heq ▸ ⟨info', es, hat⟩)
  exact outlineAt_eq_directory_iff.mp ((h.others place hne).trans
    (outlineAt_eq_directory_iff.mpr ⟨info', es, hat, rfl⟩))

/-- Parts can still be looked up in a directory if they could be. -/
theorem WrittenAt.passes (hplace : root.IsStanding place)
    (hpass : ((root.at? place).getD lost).passes privileged) :
    ((root'.at? place).getD lost).passes privileged := by
  obtain ⟨n, hn, -⟩ := hplace
  rw [hn, Option.getD_some] at hpass
  obtain ⟨info', es, rfl, hsearch⟩ := exists_of_passes hpass
  obtain ⟨info'', es', hat, hmode⟩ := h.exists_directory hfree hn
  rw [hat]
  exact (FileInfo.allows_congr hmode privileged .search).trans hsearch

theorem WrittenAt.isDirectory (hplace : root.IsStanding place)
    (hdir : ((root.at? place).getD lost).isDirectory) :
    ((root'.at? place).getD lost).isDirectory := by
  obtain ⟨n, hn, -⟩ := hplace
  rw [hn, Option.getD_some] at hdir
  obtain ⟨info', es, rfl⟩ := Node.exists_directory hdir
  obtain ⟨info'', es', hat, -⟩ := h.exists_directory hfree hn
  rw [hat]
  rfl

/-- A link is still there. -/
theorem WrittenAt.find?_link (hat : root.at? place = some (.directory info' es))
    (hat' : root'.at? place = some (.directory info'' es')) {name target : String}
    (hfind : Entries.find? name es = some (.link target)) :
    Entries.find? name es' = some (.link target) := by
  have hlink : root.at? (place ++ [name]) = some (.link target) := (at?_concat hat name).trans hfind
  have hne : place ++ [name] ≠ written := fun heq =>
    hfree.ne_link target (heq ▸ outlineAt_eq_link_iff.mpr hlink)
  rw [← at?_concat hat']
  exact outlineAt_eq_link_iff.mp ((h.others _ hne).trans (outlineAt_eq_link_iff.mpr hlink))

/-- Parts that led somewhere still lead there. -/
theorem WrittenAt.leads {links : Nat} {parts : List String} {found : Found}
    (hplace : root.IsStanding place)
    (hleads : Leads root privileged .target links place parts found) :
    Leads root' privileged .target links place parts (found.again root') := by
  generalize hgoal : Goal.target = goal at hleads ⊢
  induction hleads with
  | done links place => exact .done links place
  | slash hdir _ ih => exact .slash (h.isDirectory hfree hplace hdir) (ih hplace)
  | here hpass _ ih => exact .here (h.passes hfree hplace hpass) (ih hplace)
  | above hpass _ ih => exact .above (h.passes hfree hplace hpass) (ih hplace.dropLast)
  | @vacant links place info' es part hat hsearch hnamed hfind =>
    obtain ⟨info'', es', hat', hmode⟩ := h.exists_directory hfree hat
    have hsearch' := (FileInfo.allows_congr hmode privileged .search).trans hsearch
    rw [Found.again, at?_concat hat']
    cases hfind' : Entries.find? part es' with
    | none => exact .vacant hat' hsearch' hnamed hfind'
    | some n =>
      obtain rfl := h.eq_file hat hat' hfind hfind'
      refine .entry hat' hsearch' hnamed hfind' nofun ?_
      have hdone : Leads root' privileged goal links (place ++ [part]) [] _ :=
        .done links (place ++ [part])
      rwa [at?_concat hat', hfind', Option.getD_some] at hdone
  | @entry links place info' es part rest child found hat hsearch hnamed hfind hlink _ ih =>
    obtain ⟨info'', es', hat', hmode⟩ := h.exists_directory hfree hat
    have hsearch' := (FileInfo.allows_congr hmode privileged .search).trans hsearch
    obtain ⟨child', hfind', hlink'⟩ := h.exists_entry hat hat' hfind hlink
    exact .entry hat' hsearch' hnamed hfind' hlink'
      (ih ⟨child, (at?_concat hat part).trans hfind, hlink⟩)
  | @link links place info' es part target rest found hat hsearch hnamed hfind hfollowed _ ih =>
    obtain ⟨info'', es', hat', hmode⟩ := h.exists_directory hfree hat
    have hsearch' := (FileInfo.allows_congr hmode privileged .search).trans hsearch
    exact .link hat' hsearch' hnamed (h.find?_link hfree hat hat' hfind) hfollowed
      (ih (isStanding_base hat target))
  | itself _ _ _ _ hself => exact absurd (hgoal.trans hself) (by decide)

end

end Node

end ScriptShell
