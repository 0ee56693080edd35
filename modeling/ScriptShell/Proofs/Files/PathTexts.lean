import ScriptShell.Files.World

/-!
# Paths of entries

The path of an entry is the path of its directory with the name behind it. Its parts are those of
the directory and the name, so different names below one directory have different paths.
-/

namespace ScriptShell

/-- A name that an entry of a directory can have. -/
structure IsEntryName (name : String) : Prop where
  ne_empty : name ≠ ""
  ne_here : name ≠ "."
  ne_above : name ≠ ".."
  no_slash : '/' ∉ name.toList
  no_nul : '\x00' ∉ name.toList
  short : name.utf8ByteSize ≤ Node.greatestName

instance : DecidablePred IsEntryName := fun name =>
  decidable_of_iff (name ≠ "" ∧ name ≠ "." ∧ name ≠ ".." ∧ '/' ∉ name.toList ∧
      '\x00' ∉ name.toList ∧ name.utf8ByteSize ≤ Node.greatestName)
    ⟨fun ⟨h₁, h₂, h₃, h₄, h₅, h₆⟩ => ⟨h₁, h₂, h₃, h₄, h₅, h₆⟩,
      fun ⟨h₁, h₂, h₃, h₄, h₅, h₆⟩ => ⟨h₁, h₂, h₃, h₄, h₅, h₆⟩⟩

namespace Path

/-! ### Parts -/

/-- A slash ends a part. -/
theorem betweenSlashes_append_slash (part cs ds : List Char) :
    betweenSlashes part (cs ++ '/' :: ds) = betweenSlashes part cs ++ betweenSlashes [] ds := by
  induction cs generalizing part with
  | nil => rfl
  | cons c cs ih =>
    rw [List.cons_append, betweenSlashes, betweenSlashes]
    split
    · rw [ih, List.cons_append]
    · exact ih (c :: part)

/-- What has no slash is one part. -/
theorem betweenSlashes_of_no_slash {cs : List Char} (h : '/' ∉ cs) (part : List Char) :
    betweenSlashes part cs = [part.reverse ++ cs] := by
  induction cs generalizing part with
  | nil => rw [betweenSlashes, List.append_nil]
  | cons c cs ih =>
    obtain ⟨hc, hcs⟩ := not_or.mp (mt List.mem_cons.mpr h)
    rw [betweenSlashes, if_neg (Ne.symm hc), ih hcs, List.reverse_cons, List.append_assoc]
    rfl

/-- The parts of two texts with a slash between them are those of both. -/
theorem parts_append_slash (path rest : String) :
    parts (path ++ "/" ++ rest) = parts path ++ parts rest := by
  have hchars : (path ++ "/" ++ rest).toList = path.toList ++ '/' :: rest.toList := by simp
  simp only [parts, hchars, betweenSlashes_append_slash, List.filter_append, List.map_append]

/-- The name of an entry is one part. -/
theorem parts_of_name {name : String} (h : IsEntryName name) : parts name = [name] := by
  have hne : name.toList ≠ [] := fun hnil => h.ne_empty (String.toList_eq_nil_iff.mp hnil)
  rw [parts, betweenSlashes_of_no_slash h.no_slash]
  simp [hne]

/-! ### Entries -/

/-- A path that starts with a slash is absolute. -/
theorem isAbsolute_iff {path : String} : isAbsolute path ↔ ∃ rest, path.toList = '/' :: rest := by
  cases hpath : path.toList with
  | nil => simp [isAbsolute, hpath]
  | cons c rest => simp [isAbsolute, hpath]

/-- A path that ends with a slash is one with the slash behind it. -/
theorem exists_of_endsWithSlash {path : String} (h : endsWithSlash path) :
    ∃ front, path = front ++ "/" := by
  have hlast : path.toList.getLast? = some '/' := by simpa [endsWithSlash] using h
  obtain ⟨front, hfront⟩ := List.getLast?_eq_some_iff.mp hlast
  refine ⟨String.ofList front, String.toList_injective ?_⟩
  rw [hfront, String.toList_append, String.toList_ofList]
  rfl

/-- A path and a name are put together with a slash, which the path may end with. -/
theorem exists_join {path name : String} (hpath : path ≠ "") (hname : IsEntryName name) :
    ∃ front, join path name = front ++ "/" ++ name ∧ (path = front ∨ path = front ++ "/") := by
  have hrelative : ¬isAbsolute name := by
    intro habsolute
    obtain ⟨rest, hrest⟩ := isAbsolute_iff.mp habsolute
    exact hname.no_slash (hrest ▸ List.mem_cons_self ..)
  have hempty : path.isEmpty = false := by simpa using hpath
  unfold join
  rw [if_neg hrelative, hempty, Bool.false_or]
  split
  · next hslash =>
    obtain ⟨front, rfl⟩ := exists_of_endsWithSlash hslash
    exact ⟨front, rfl, .inr rfl⟩
  · exact ⟨path, rfl, .inl rfl⟩

section

variable {path name : String} (hpath : path ≠ "") (hname : IsEntryName name)
include hpath hname

/-- A name that is joined to a path is its last part. -/
theorem parts_join : parts (join path name) = parts path ++ [name] := by
  obtain ⟨front, heq, hfront⟩ := exists_join hpath hname
  have hparts : parts path = parts front := by
    obtain rfl | rfl := hfront
    · rfl
    · have hadd := parts_append_slash front ""
      rwa [String.append_empty, show parts "" = [] from rfl, List.append_nil] at hadd
  rw [heq, parts_append_slash, parts_of_name hname, hparts]

/-- A joined path is not empty. -/
theorem join_ne_empty : join path name ≠ "" := by
  obtain ⟨front, heq, -⟩ := exists_join hpath hname
  rw [heq]
  simp [String.append_eq_empty_iff]

/-- A joined path is absolute where the path before it is. -/
theorem isAbsolute_join : isAbsolute (join path name) = isAbsolute path := by
  obtain ⟨front, heq, hfront⟩ := exists_join hpath hname
  have hne : path.toList ≠ [] := fun hnil => hpath (String.toList_eq_nil_iff.mp hnil)
  obtain ⟨behind, hbehind⟩ : ∃ behind, (join path name).toList = path.toList ++ behind := by
    obtain rfl | rfl := hfront
    · exact ⟨'/' :: name.toList, by simp [heq]⟩
    · exact ⟨name.toList, by simp [heq]⟩
  obtain ⟨c, rest, hchars⟩ := List.exists_cons_of_ne_nil hne
  rw [isAbsolute, isAbsolute, hbehind, hchars]
  rfl

/-- A joined path ends with the name. -/
theorem endsWithSlash_join : endsWithSlash (join path name) = false := by
  obtain ⟨front, heq, -⟩ := exists_join hpath hname
  have hne : name.toList ≠ [] := fun hnil => hname.ne_empty (String.toList_eq_nil_iff.mp hnil)
  have hlast : (join path name).toList.getLast? = name.toList.getLast? := by
    rw [heq, String.toList_append, List.getLast?_append, List.getLast?_eq_some_getLast hne]
    rfl
  rw [endsWithSlash, hlast, beq_eq_false_iff_ne]
  exact fun hslash => hname.no_slash (List.mem_of_getLast? hslash)

/-- A name brings no NUL into a path. -/
theorem nul_mem_join_iff : '\x00' ∈ (join path name).toList ↔ '\x00' ∈ path.toList := by
  obtain ⟨front, heq, hfront⟩ := exists_join hpath hname
  obtain rfl | rfl := hfront <;> simp [heq, hname.no_nul]

end

/-! ### Places below a directory -/

/-- The path of a place below a directory. -/
def below (directory : String) (names : Location) : String := names.foldl join directory

@[simp] theorem below_nil (directory : String) : below directory [] = directory := rfl

/-- The path of a place starts with the path of the directory that it is in. -/
@[simp] theorem below_cons (directory name : String) (names : Location) :
    below directory (name :: names) = below (join directory name) names := rfl

/-- The path of a place ends with its name. -/
theorem below_concat (directory : String) (names : Location) (name : String) :
    below directory (names ++ [name]) = join (below directory names) name :=
  List.foldl_append

/-- The parts of a path below a directory are those of the directory and the names. -/
theorem parts_below {directory : String} (h : directory ≠ "") {names : Location}
    (hnames : ∀ name ∈ names, IsEntryName name) :
    parts (below directory names) = parts directory ++ names := by
  induction names generalizing directory with
  | nil => rw [below_nil, List.append_nil]
  | cons name names ih =>
    obtain ⟨hname, hnames⟩ := List.forall_mem_cons.mp hnames
    rw [below_cons, ih (join_ne_empty h hname) hnames, parts_join h hname, List.append_assoc]
    rfl

/-- Different places below a directory have different paths. -/
theorem below_injective {directory : String} (h : directory ≠ "") {names names' : Location}
    (hnames : ∀ name ∈ names, IsEntryName name) (hnames' : ∀ name ∈ names', IsEntryName name)
    (heq : below directory names = below directory names') : names = names' := by
  have hparts := congrArg parts heq
  rwa [parts_below h hnames, parts_below h hnames', List.append_cancel_left_eq] at hparts

end Path

end ScriptShell
