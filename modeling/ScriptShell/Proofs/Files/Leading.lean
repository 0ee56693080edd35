import ScriptShell.Proofs.Files.Lookup

/-!
# Where parts lead

Following the parts of a path is told by a relation with one rule for each kind of part, so that
what holds of everything that is found is proved along the rules. A slash at the end of a path is
read in another way where something is to be made; unless the path leads to a directory, it leads to
the same place in both readings.
-/

namespace ScriptShell

namespace Node

/-! ### The rules of walks -/

/-- A part that names an entry, and that an entry can have. -/
structure IsNamed (part : String) : Prop where
  ne_empty : part ≠ ""
  ne_here : part ≠ "."
  ne_above : part ≠ ".."
  short : part.utf8ByteSize ≤ greatestName

/-- Parts lead a user from a place to what is found. Any number of links up to the given one is
followed on the way. A lost working directory is a directory without entries. -/
inductive Leads (root : Node) (privileged : Bool) (goal : Goal) :
    Nat → Location → List String → Found → Prop where
  | done (links : Nat) (place : Location) :
    Leads root privileged goal links place [] (.node place ((root.at? place).getD lost))
  | slash {links : Nat} {place : Location} {rest : List String} {found : Found}
    (hdir : ((root.at? place).getD lost).isDirectory)
    (h : Leads root privileged goal links place rest found) :
    Leads root privileged goal links place ("" :: rest) found
  | here {links : Nat} {place : Location} {rest : List String} {found : Found}
    (hpass : ((root.at? place).getD lost).passes privileged)
    (h : Leads root privileged goal links place rest found) :
    Leads root privileged goal links place ("." :: rest) found
  | above {links : Nat} {place : Location} {rest : List String} {found : Found}
    (hpass : ((root.at? place).getD lost).passes privileged)
    (h : Leads root privileged goal links place.dropLast rest found) :
    Leads root privileged goal links place (".." :: rest) found
  | vacant {links : Nat} {place : Location} {info : FileInfo} {es : Entries Node} {part : String}
    (hat : root.at? place = some (.directory info es)) (hsearch : info.allows privileged .search)
    (hnamed : IsNamed part) (hfind : Entries.find? part es = none) :
    Leads root privileged goal links place [part] (.vacant place part)
  | entry {links : Nat} {place : Location} {info : FileInfo} {es : Entries Node} {part : String}
    {rest : List String} {child : Node} {found : Found}
    (hat : root.at? place = some (.directory info es)) (hsearch : info.allows privileged .search)
    (hnamed : IsNamed part) (hfind : Entries.find? part es = some child)
    (hlink : ∀ target, child ≠ .link target)
    (h : Leads root privileged goal links (place ++ [part]) rest found) :
    Leads root privileged goal links place (part :: rest) found
  | link {links : Nat} {place : Location} {info : FileInfo} {es : Entries Node}
    {part target : String} {rest : List String} {found : Found}
    (hat : root.at? place = some (.directory info es)) (hsearch : info.allows privileged .search)
    (hnamed : IsNamed part) (hfind : Entries.find? part es = some (.link target))
    (hfollowed : ¬(rest.isEmpty && goal == .itself))
    (h : Leads root privileged goal links (if Path.isAbsolute target then [] else place)
      (partsToWalk (if rest.isEmpty then goal else .target) target ++ rest) found) :
    Leads root privileged goal (links + 1) place (part :: rest) found
  | itself {links : Nat} {place : Location} {info : FileInfo} {es : Entries Node}
    {part target : String} (hat : root.at? place = some (.directory info es))
    (hsearch : info.allows privileged .search) (hnamed : IsNamed part)
    (hfind : Entries.find? part es = some (.link target)) (hgoal : goal = .itself) :
    Leads root privileged goal links place [part] (.node (place ++ [part]) (.link target))

variable {root : Node} {privileged : Bool} {goal : Goal} {links : Nat} {place : Location}
  {parts : List String}
  {found : Found}

/-- What has entries is no lost directory. -/
theorem at?_of_find? {info : FileInfo} {es : Entries Node} {part : String} {child : Node}
    (hdir : (root.at? place).getD lost = .directory info es)
    (hfind : Entries.find? part es = some child) : root.at? place = some (.directory info es) := by
  cases hat : root.at? place with
  | some n =>
    rw [hat] at hdir
    exact congrArg some hdir
  | none =>
    rw [hat] at hdir
    cases hdir
    cases hfind

theorem exists_directory {n : Node} (h : n.isDirectory = true) :
    ∃ info es, n = .directory info es := by
  cases n with
  | directory info es => exact ⟨info, es, rfl⟩
  | file | link => cases h

/-- What is found by a walk was led to by the rules. -/
theorem leads_of_walk (h : walk root privileged goal links place parts = .ok found) :
    Leads root privileged goal links place parts found := by
  fun_induction walk root privileged goal links place parts with
  | case1 links place =>
    cases h
    exact .done links place
  | case2 links place rest info es hdir ih => exact .slash (hdir ▸ rfl) (ih h)
  | case4 links place rest info es hdir hsearch _ ih =>
    exact .here (by simpa [hdir, passes] using hsearch) (ih h)
  | case5 links place rest info es hdir hsearch _ _ ih =>
    exact .above (by simpa [hdir, passes] using hsearch) (ih h)
  | case7 links place part rest info es hdir hempty hsearch hhere habove hshort hfind hend =>
    cases h
    obtain ⟨hrest, hsome⟩ := Bool.and_eq_true_iff.mp hend
    obtain ⟨n, hat⟩ := Option.isSome_iff_exists.mp hsome
    rw [hat] at hdir
    rw [List.isEmpty_iff.mp hrest]
    exact .vacant (hat.trans (congrArg some hdir)) (by simpa using hsearch)
      ⟨hempty, hhere, habove, Nat.not_lt.mp hshort⟩ hfind
  | case9 links place part rest info es hdir hempty hsearch hhere habove hshort target hfind hend =>
    cases h
    obtain ⟨hrest, hgoal⟩ := Bool.and_eq_true_iff.mp hend
    rw [List.isEmpty_iff.mp hrest]
    exact .itself (at?_of_find? hdir hfind) (by simpa using hsearch)
      ⟨hempty, hhere, habove, Nat.not_lt.mp hshort⟩ hfind (beq_iff_eq.mp hgoal)
  | case11 place part rest info es hdir hempty hsearch hhere habove hshort target hfind hend links
      _ ih =>
    exact .link (at?_of_find? hdir hfind) (by simpa using hsearch)
      ⟨hempty, hhere, habove, Nat.not_lt.mp hshort⟩ hfind hend (ih h)
  | case12 links place part rest info es hdir hempty hsearch hhere habove hshort child hlink hfind
      ih =>
    exact .entry (at?_of_find? hdir hfind) (by simpa using hsearch)
      ⟨hempty, hhere, habove, Nat.not_lt.mp hshort⟩ hfind (fun target heq => hlink target heq)
      (ih h)
  | case3 | case6 | case8 | case10 | case13 => cases h

/-- A part that names an entry is looked up among the entries. -/
theorem walk_named {info : FileInfo} {es : Entries Node} {part : String}
    (hat : root.at? place = some (.directory info es))
    (hsearch : info.allows privileged .search = true) (hnamed : IsNamed part)
    (rest : List String) :
    walk root privileged goal links place (part :: rest) =
      match Entries.find? part es with
      | none => if rest.isEmpty then .ok (.vacant place part) else .error .notFound
      | some (.link target) =>
        if rest.isEmpty && goal == .itself then .ok (.node (place ++ [part]) (.link target))
        else
          match links with
          | 0 => .error .tooManyLinks
          | links + 1 =>
            walk root privileged goal links (if Path.isAbsolute target then [] else place)
              (partsToWalk (if rest.isEmpty then goal else .target) target ++ rest)
      | some _ => walk root privileged goal links (place ++ [part]) rest := by
  have hwalk := walk.eq_def root privileged goal links place (part :: rest)
  simp only [hat, hsearch, Option.getD_some, if_neg hnamed.ne_empty, if_neg hnamed.ne_here,
    if_neg hnamed.ne_above, if_neg (Nat.not_lt.mpr hnamed.short), Option.isSome_some,
    Bool.and_true, Bool.not_true, if_neg Bool.false_ne_true] at hwalk
  exact hwalk

/-- What the rules lead to is found by a walk. -/
theorem walk_of_leads (h : Leads root privileged goal links place parts found) :
    walk root privileged goal links place parts = .ok found := by
  induction h with
  | done => rw [walk]
  | slash hdir _ ih =>
    obtain ⟨info, es, hdir⟩ := exists_directory hdir
    rw [walk, hdir]
    exact ih
  | here hpass _ ih =>
    obtain ⟨info, es, hdir, hsearch⟩ := exists_of_passes hpass
    rw [walk, hdir]
    simp only [hsearch]
    exact ih
  | above hpass _ ih =>
    obtain ⟨info, es, hdir, hsearch⟩ := exists_of_passes hpass
    rw [walk, hdir]
    simp only [hsearch]
    exact ih
  | vacant hat hsearch hnamed hfind => rw [walk_named hat hsearch hnamed, hfind]; rfl
  | @entry links place info es part rest child found hat hsearch hnamed hfind hlink _ ih =>
    rw [walk_named hat hsearch hnamed, hfind]
    cases child with
    | link target => exact absurd rfl (hlink target)
    | file | directory => exact ih
  | link hat hsearch hnamed hfind hfollowed _ ih =>
    rw [walk_named hat hsearch hnamed, hfind]
    exact (if_neg hfollowed).trans ih
  | itself hat hsearch hnamed hfind hgoal =>
    rw [walk_named hat hsearch hnamed, hfind, hgoal]
    rfl

/-- Parts are followed by these rules and no others. -/
theorem walk_eq_ok_iff :
    walk root privileged goal links place parts = .ok found ↔
      Leads root privileged goal links place parts found :=
  ⟨leads_of_walk, walk_of_leads⟩

/-- The name of an entry leads from its directory to it. -/
theorem at?_concat {info : FileInfo} {es : Entries Node}
    (h : root.at? place = some (.directory info es)) (name : String) :
    root.at? (place ++ [name]) = Entries.find? name es := by
  rw [at?_append, h, Option.bind_some, at?_cons]
  cases Entries.find? name es <;> rfl

end Node

/-! ### What is found -/

namespace Found

/-- The place of what is found; that of a free name is where it would stand. -/
def place : Found → Location
  | .node place _ => place
  | .vacant parent name => parent ++ [name]

/-- What is found stands in the tree, or is a free name in a directory that does. A working
directory that was lost is found as one. -/
def StandsIn (root : Node) : Found → Prop
  | .node place n => n = (root.at? place).getD Node.lost
  | .vacant parent name =>
    ∃ info es, root.at? parent = some (.directory info es) ∧ Entries.find? name es = none

/-- A directory is found. -/
def IsDirectory : Found → Prop
  | .node _ n => n.isDirectory
  | .vacant .. => False

end Found

namespace Node

variable {root : Node} {privileged : Bool} {goal : Goal} {links : Nat} {place : Location}
  {parts : List String}
  {found : Found}

/-- What parts lead to stands in the tree. -/
theorem Leads.standsIn (h : Leads root privileged goal links place parts found) :
    found.StandsIn root := by
  induction h with
  | done => rfl
  | slash _ _ ih | here _ _ ih | above _ _ ih | entry _ _ _ _ _ _ ih | link _ _ _ _ _ _ ih =>
    exact ih
  | vacant hat _ _ hfind => exact ⟨_, _, hat, hfind⟩
  | itself hat _ _ hfind _ =>
    rw [Found.StandsIn, at?_concat hat, hfind]
    rfl

/-- The directory that holds a node is there, or the node is the root. -/
theorem exists_parent {n : Node} (h : root.at? place = some n) :
    place = [] ∨ ∃ info es, root.at? place.dropLast = some (.directory info es) := by
  obtain rfl | ⟨parent, name, rfl⟩ := List.eq_nil_or_concat place
  · exact .inl rfl
  · rw [List.concat_eq_append] at h ⊢
    rw [at?_append] at h
    obtain ⟨m, hm, hn⟩ := Option.bind_eq_some_iff.mp h
    rw [List.dropLast_concat]
    cases m with
    | directory info es => exact .inr ⟨info, es, hm⟩
    | file | link => cases hn

/-- The root of a tree in which something stands below it is a directory. -/
theorem exists_root {info : FileInfo} {es : Entries Node}
    (h : root.at? place = some (.directory info es)) : ∃ info es, root = .directory info es := by
  cases place with
  | nil => exact ⟨info, es, Option.some.inj h⟩
  | cons name place =>
    cases root with
    | directory info es => exact ⟨info, es, rfl⟩
    | file | link => cases h

/-- What stands at a place, and is no link. -/
def IsStanding (root : Node) (place : Location) : Prop :=
  ∃ n, root.at? place = some n ∧ ∀ target, n ≠ .link target

theorem isStanding_directory {info : FileInfo} {es : Entries Node}
    (h : root.at? place = some (.directory info es)) : root.IsStanding place :=
  ⟨_, h, nofun⟩

theorem IsStanding.dropLast (h : root.IsStanding place) : root.IsStanding place.dropLast := by
  obtain ⟨n, hat, -⟩ := id h
  obtain rfl | ⟨info, es, hparent⟩ := exists_parent hat
  · exact h
  · exact isStanding_directory hparent

/-- The target of a link in a directory is followed from the root or from the directory. -/
theorem isStanding_base {info : FileInfo} {es : Entries Node}
    (h : root.at? place = some (.directory info es)) (target : String) :
    root.IsStanding (if Path.isAbsolute target then [] else place) := by
  split
  · obtain ⟨info', es', rfl⟩ := exists_root h
    exact isStanding_directory rfl
  · exact isStanding_directory h

/-- Links are followed, unless they are what is asked for. -/
theorem Leads.ne_link (h : Leads root privileged goal links place parts found)
    (hgoal : goal ≠ .itself) (hplace : root.IsStanding place) (target : String) :
    root.at? found.place ≠ some (.link target) := by
  induction h with
  | done links place =>
    obtain ⟨n, hat, hlink⟩ := hplace
    exact fun heq => hlink target (Option.some.inj (hat.symm.trans heq))
  | slash _ _ ih | here _ _ ih => exact ih hplace
  | above _ _ ih => exact ih hplace.dropLast
  | vacant hat _ _ hfind =>
    rw [Found.place, at?_concat hat, hfind]
    nofun
  | entry hat _ _ hfind hlink _ ih => exact ih ⟨_, (at?_concat hat _).trans hfind, hlink⟩
  | link hat _ _ _ _ _ ih => exact ih (isStanding_base hat _)
  | itself _ _ _ _ hself => exact absurd hself hgoal

theorem isDirectory_of_passes {n : Node} (h : n.passes privileged = true) :
    n.isDirectory = true := by
  obtain ⟨info, es, rfl, -⟩ := exists_of_passes h
  rfl

/-- A part `.` at the end leads to a directory. -/
theorem Leads.isDirectory (h : Leads root privileged goal links place parts found)
    (hlast : parts.getLast? = some ".") : found.IsDirectory := by
  induction h with
  | done => cases hlast
  | @slash links place rest found _ h ih =>
    cases rest with
    | nil => exact absurd (Option.some.inj hlast) (by decide)
    | cons part rest => exact ih (List.getLast?_cons_cons ▸ hlast)
  | @here links place rest found hpass h ih =>
    cases rest with
    | nil =>
      cases h
      exact isDirectory_of_passes hpass
    | cons part rest => exact ih (List.getLast?_cons_cons ▸ hlast)
  | @above links place rest found _ h ih =>
    cases rest with
    | nil => exact absurd (Option.some.inj hlast) (by decide)
    | cons part rest => exact ih (List.getLast?_cons_cons ▸ hlast)
  | vacant _ _ hnamed _ => exact absurd (Option.some.inj hlast) hnamed.ne_here
  | @entry links place info es part rest child found _ _ hnamed _ _ h ih =>
    cases rest with
    | nil => exact absurd (Option.some.inj hlast) hnamed.ne_here
    | cons part rest => exact ih (List.getLast?_cons_cons ▸ hlast)
  | @link links place info es part target rest found _ _ hnamed _ _ h ih =>
    cases rest with
    | nil => exact absurd (Option.some.inj hlast) hnamed.ne_here
    | cons part rest =>
      rw [List.getLast?_cons_cons] at hlast
      exact ih (by rw [List.getLast?_append, hlast]; rfl)
  | itself _ _ hnamed _ _ => exact absurd (Option.some.inj hlast) hnamed.ne_here

/-- A slash behind a name makes no difference where no directory is found. -/
theorem partsToWalk_make {path : String}
    (h : Leads root privileged goal links place (partsToWalk .make path) found)
    (hfound : ¬found.IsDirectory) : partsToWalk .make path = partsToWalk .target path := by
  by_cases hslash : namesWithSlash path
  · refine absurd (h.isDirectory ?_) hfound
    rw [partsToWalk, if_pos ⟨rfl, hslash⟩, List.getLast?_concat]
  · simp [partsToWalk, hslash]

/-- Where something is to be made, parts lead where they lead otherwise, unless they lead to a
directory. -/
theorem Leads.target_of_make (h : Leads root privileged .make links place parts found)
    (hfound : ¬found.IsDirectory) : Leads root privileged .target links place parts found := by
  generalize hgoal : Goal.make = goal at h
  induction h with
  | done links place => exact .done links place
  | slash hdir _ ih => exact .slash hdir (ih hfound)
  | here hpass _ ih => exact .here hpass (ih hfound)
  | above hpass _ ih => exact .above hpass (ih hfound)
  | vacant hat hsearch hnamed hfind => exact .vacant hat hsearch hnamed hfind
  | entry hat hsearch hnamed hfind hlink _ ih =>
    exact .entry hat hsearch hnamed hfind hlink (ih hfound)
  | @link links place info es part target rest found hat hsearch hnamed hfind hfollowed h ih =>
    subst hgoal
    refine .link hat hsearch hnamed hfind (by simp) ?_
    cases rest with
    | nil =>
      -- The link is the end of the path, so its target is followed with the same goal.
      have hparts : partsToWalk .make target = partsToWalk .target target :=
        partsToWalk_make (List.append_nil _ ▸ h) hfound
      have hthere := ih hfound
      simp only [List.isEmpty_nil, if_true, hparts, ite_self] at hthere ⊢
      exact hthere
    | cons part rest => exact ih hfound
  | itself _ _ _ _ hself => exact absurd (hgoal.trans hself) (by decide)

end Node

end ScriptShell
