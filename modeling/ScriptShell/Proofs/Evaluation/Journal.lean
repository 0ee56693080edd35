import ScriptShell.Proofs.Evaluation.Bindings

/-!
# Journals of bindings

What an environment binds is told by a journal of the writes to it. The journal says of each write
whose scope it went to, and every call that was ever entered has a number of its own, so a frame
that is left is never taken for a later one. A lookup reads the last write of a name in the
innermost frame if there is one, else among the locals, else among the globals. The environment,
which keeps no history, answers every lookup as its journal does.
-/

namespace ScriptShell

/-! ### Changes -/

/-- A change to an environment: a name is bound, bound globally, or changed where it is bound, or a
call is entered or left. -/
inductive Change where
  | set (name : String) (v : Value)
  | setGlobal (name : String) (v : Value)
  | replace (name : String) (v : Value)
  | pushFrame
  | popFrame

namespace Environment

/-- An environment after a change. -/
def change (env : Environment) : Change → Environment
  | .set name v => env.set name v
  | .setGlobal name v => env.setGlobal name v
  | .replace name v => env.replace name v
  | .pushFrame => env.pushFrame
  | .popFrame => env.popFrame

/-- What changes make of an environment that binds nothing. -/
def ofChanges (changes : List Change) : Environment := changes.foldl change empty

end Environment

/-! ### Journals -/

/-- Whose scope a name is bound in: that of one of the calls that were ever entered, which are
numbered in turn, that of the session, or that of the globals. -/
inductive ScopeOwner where
  | call (number : Nat)
  | session
  | globals
  deriving DecidableEq

/-- A write to a scope. -/
structure Write where
  owner : ScopeOwner
  name : String
  value : Value

/-- The writes to an environment, the last one first, with the numbers of the calls that are under
way, the innermost one first, and the number of calls that were entered. -/
structure Journal where
  writes : List Write
  calls : List Nat
  entered : Nat

namespace Journal

/-- A journal of nothing. -/
def empty : Journal := ⟨[], [], 0⟩

/-- The last value that was written to a name in a scope. -/
def lastWritten (j : Journal) (owner : ScopeOwner) (name : String) : Option Value :=
  (j.writes.find? fun w => w.owner = owner ∧ w.name = name).map Write.value

/-- The owner of the scope that new bindings go to. -/
def innermost (j : Journal) : ScopeOwner :=
  match j.calls with
  | call :: _ => .call call
  | [] => .session

/-- The owners of the scopes that names are looked up in, in order. -/
def seen (j : Journal) : List ScopeOwner :=
  match j.calls with
  | call :: _ => [.call call, .session, .globals]
  | [] => [.session, .globals]

/-- The last value that was written to a name in the first scope seen that binds it. -/
def read (j : Journal) (name : String) : Option Value :=
  j.seen.findSome? fun owner => j.lastWritten owner name

/-- The owner of the first scope seen that binds a name. -/
def shownIn (j : Journal) (name : String) : Option ScopeOwner :=
  j.seen.find? fun owner => (j.lastWritten owner name).isSome

/-- A journal with one more write. -/
def write (owner : ScopeOwner) (name : String) (v : Value) (j : Journal) : Journal :=
  { j with writes := ⟨owner, name, v⟩ :: j.writes }

/-- A journal with one more change. A change of a name that is not bound writes nothing. -/
def note (j : Journal) : Change → Journal
  | .set name v => j.write j.innermost name v
  | .setGlobal name v => j.write .globals name v
  | .replace name v =>
    match j.shownIn name with
    | some owner => j.write owner name v
    | none => j
  | .pushFrame => { j with calls := j.entered :: j.calls, entered := j.entered + 1 }
  | .popFrame => { j with calls := j.calls.tail }

/-- The journal of some changes. -/
def ofChanges (changes : List Change) : Journal := changes.foldl note empty

variable {j : Journal} {owner : ScopeOwner} {name : String} {v : Value}

/-- What was written last is what was written now. -/
theorem lastWritten_write_self (owner : ScopeOwner) (name : String) (v : Value) (j : Journal) :
    (j.write owner name v).lastWritten owner name = some v := by
  simp [lastWritten, write]

/-- Writing one name in one scope leaves what was written elsewhere. -/
theorem lastWritten_write_of_ne {owner' : ScopeOwner} {name' : String}
    (h : owner' ≠ owner ∨ name' ≠ name) (v : Value) (j : Journal) :
    (j.write owner name v).lastWritten owner' name' = j.lastWritten owner' name' := by
  have hne : ¬(owner = owner' ∧ name = name') := fun ⟨ho, hn⟩ => h.elim (· ho.symm) (· hn.symm)
  simp [lastWritten, write, hne]

/-! ### Numbers of calls -/

/-- The calls of a journal have different numbers, and no call that is still to be entered has been
written to. -/
structure Numbered (j : Journal) : Prop where
  distinct : j.calls.Nodup
  entered : ∀ call ∈ j.calls, call < j.entered
  written : ∀ w ∈ j.writes, ∀ call, w.owner = .call call → call < j.entered

/-- A call that is still to be entered binds nothing. -/
theorem Numbered.lastWritten_next (h : j.Numbered) (name : String) :
    j.lastWritten (.call j.entered) name = none := by
  rw [lastWritten, Option.map_eq_none_iff, List.find?_eq_none]
  intro w hw heq
  obtain ⟨howner, -⟩ := of_decide_eq_true heq
  exact Nat.lt_irrefl _ (h.written w hw _ howner)

/-- Writing enters no call. -/
theorem Numbered.write (h : j.Numbered) (howner : ∀ call, owner = .call call → call < j.entered)
    (name : String) (v : Value) : (j.write owner name v).Numbered :=
  ⟨h.distinct, h.entered, List.forall_mem_cons.mpr ⟨howner, h.written⟩⟩

/-- Entering a call takes a new number. -/
theorem Numbered.pushFrame (h : j.Numbered) : (j.note .pushFrame).Numbered where
  distinct := List.nodup_cons.mpr ⟨fun hmem => Nat.lt_irrefl _ (h.entered _ hmem), h.distinct⟩
  entered := List.forall_mem_cons.mpr
    ⟨Nat.lt_succ_self _, fun call hcall => Nat.lt_succ_of_lt (h.entered call hcall)⟩
  written w hw call howner := Nat.lt_succ_of_lt (h.written w hw call howner)

/-- Leaving a call takes the innermost one from those that are open. -/
theorem Numbered.popFrame (h : j.Numbered) : (j.note .popFrame).Numbered where
  distinct := h.distinct.tail
  entered call hcall := h.entered call (List.mem_of_mem_tail hcall)
  written := h.written

/-! ### Journals of environments -/

/-- Whose scope stands at a place. -/
def ownerAt (j : Journal) : ScopePlace → Option ScopeOwner
  | .frame n => j.calls[n]?.map .call
  | .locals => some .session
  | .globals => some .globals

/-- Different places have different owners. -/
theorem Numbered.place_eq (h : j.Numbered) {place place' : ScopePlace}
    (hplace : j.ownerAt place = some owner) (hplace' : j.ownerAt place' = some owner) :
    place = place' := by
  cases place with
  | frame n =>
    obtain ⟨call, hcall, rfl⟩ := Option.map_eq_some_iff.mp hplace
    cases place' with
    | frame m =>
      obtain ⟨call', hcall', heq⟩ := Option.map_eq_some_iff.mp hplace'
      cases heq
      have hlt := (List.getElem?_eq_some_iff.mp hcall).1
      rw [(List.getElem?_inj hlt h.distinct).mp (hcall.trans hcall'.symm)]
    | locals | globals => cases hplace'
  | locals =>
    cases hplace
    cases place' with
    | frame m => obtain ⟨_, _, heq⟩ := Option.map_eq_some_iff.mp hplace'; cases heq
    | locals => rfl
    | globals => cases hplace'
  | globals =>
    cases hplace
    cases place' with
    | frame m => obtain ⟨_, _, heq⟩ := Option.map_eq_some_iff.mp hplace'; cases heq
    | locals => cases hplace'
    | globals => rfl

/-- A call with an owner at a place was entered. -/
theorem Numbered.lt_of_ownerAt (h : j.Numbered) {place : ScopePlace} {call : Nat}
    (hplace : j.ownerAt place = some (.call call)) : call < j.entered := by
  cases place with
  | frame n =>
    obtain ⟨call', hcall', heq⟩ := Option.map_eq_some_iff.mp hplace
    cases heq
    exact h.entered _ (List.mem_of_getElem? hcall')
  | locals | globals => cases hplace

/-- An environment has a scope for each call under way, and in every scope each name is bound to
what was last written to it there. -/
structure Describes (j : Journal) (env : Environment) : Prop where
  numbered : j.Numbered
  depth : env.depth = j.calls.length
  bindings : ∀ place name, env.binding? place name =
    (j.ownerAt place).bind fun owner => j.lastWritten owner name

variable {env : Environment} {place : ScopePlace}

/-- A journal without notes describes an environment without bindings. -/
theorem describes_empty : empty.Describes .empty where
  numbered := ⟨.nil, nofun, nofun⟩
  depth := rfl
  bindings place name := by cases place <;> rfl

/-- A lookup reads what was last written in the first scope seen that binds the name. -/
theorem Describes.get?_eq (h : j.Describes env) (name : String) : env.get? name = j.read name := by
  simp only [Environment.get?_eq_or, h.bindings]
  unfold read seen
  cases hcalls : j.calls with
  | nil =>
    cases hsession : j.lastWritten .session name <;>
      cases hglobals : j.lastWritten .globals name <;>
      simp [ownerAt, hsession, hglobals, hcalls]
  | cons call calls =>
    cases hcall : j.lastWritten (.call call) name <;>
      cases hsession : j.lastWritten .session name <;>
      cases hglobals : j.lastWritten .globals name <;>
      simp [ownerAt, hcall, hsession, hglobals, hcalls]

/-- A name is found where the journal shows it. -/
theorem Describes.bind_foundIn (h : j.Describes env) (name : String) :
    (env.foundIn name).bind j.ownerAt = j.shownIn name := by
  unfold Environment.foundIn shownIn seen
  simp only [h.bindings]
  cases hcalls : j.calls with
  | nil =>
    cases hsession : j.lastWritten .session name <;>
      cases hglobals : j.lastWritten .globals name <;>
      simp [ownerAt, hcalls, hsession, hglobals]
  | cons call calls =>
    cases hcall : j.lastWritten (.call call) name <;>
      cases hsession : j.lastWritten .session name <;>
      cases hglobals : j.lastWritten .globals name <;>
      simp [ownerAt, hcalls, hcall, hsession, hglobals]

/-- New bindings go to the innermost scope of the journal. -/
theorem Describes.ownerAt_assignedIn (h : j.Describes env) :
    j.ownerAt env.assignedIn = some j.innermost := by
  have hdepth := h.depth
  unfold Environment.assignedIn innermost
  cases hcalls : j.calls with
  | nil =>
    rw [hcalls] at hdepth
    rw [List.eq_nil_of_length_eq_zero hdepth]
    rfl
  | cons call calls =>
    have hframes : env.frames ≠ [] := List.ne_nil_of_length_eq_add_one (hcalls ▸ hdepth)
    simp [hframes, ownerAt, hcalls]

/-! ### Changes of described environments -/

/-- A write to one scope is one line of the journal. -/
theorem Describes.write (h : j.Describes env) {env' : Environment}
    (hplace : j.ownerAt place = some owner)
    (hchanged : Environment.ChangedOnly place name v env env') :
    (j.write owner name v).Describes env' where
  numbered := h.numbered.write (fun _ howner => h.numbered.lt_of_ownerAt (howner ▸ hplace)) name v
  depth := hchanged.depth.trans h.depth
  bindings place' name' := by
    change _ = (j.ownerAt place').bind _
    by_cases hcell : place' = place ∧ name' = name
    · obtain ⟨rfl, rfl⟩ := hcell
      rw [hchanged.bound, hplace, Option.bind_some, lastWritten_write_self]
    · rw [hchanged.others place' name' (Decidable.not_and_iff_not_or_not.mp hcell), h.bindings]
      cases hplace' : j.ownerAt place' with
      | none => rfl
      | some owner' =>
        -- Another place has another owner, since the calls under way have different numbers.
        have hother : owner' ≠ owner ∨ name' ≠ name := by
          refine Decidable.not_and_iff_not_or_not.mp fun ⟨howner, hname⟩ => hcell ⟨?_, hname⟩
          exact h.numbered.place_eq (howner ▸ hplace') hplace
        exact (lastWritten_write_of_ne hother v j).symm

/-- A note of a name bound anew describes the environment with it. -/
theorem Describes.replace (h : j.Describes env) (name : String) (v : Value) :
    (j.note (.replace name v)).Describes (env.replace name v) := by
  have hshown := h.bind_foundIn name
  cases hfound : env.foundIn name with
  | none =>
    have hunbound : env.get? name = none := by rw [Environment.get?_eq_binding?, hfound]; rfl
    rw [hfound, Option.bind_none] at hshown
    simp only [note, ← hshown, Environment.replace_of_unbound hunbound]
    exact h
  | some place =>
    obtain ⟨owner, howner⟩ : ∃ owner, j.ownerAt place = some owner := by
      have hbound := Environment.isSome_of_foundIn hfound
      rw [h.bindings] at hbound
      exact Option.isSome_iff_exists.mp (Option.isSome_of_isSome_bind hbound)
    rw [hfound, Option.bind_some, howner] at hshown
    simp only [note, ← hshown]
    exact h.write howner (Environment.changedOnly_replace hfound v)

/-- A note of a call that is entered describes the environment with a new frame. -/
theorem Describes.pushFrame (h : j.Describes env) :
    (j.note .pushFrame).Describes env.pushFrame where
  numbered := h.numbered.pushFrame
  depth := congrArg (· + 1) h.depth
  bindings place name := by
    cases place with
    | frame n =>
      cases n with
      | zero => exact (h.numbered.lastWritten_next name).symm
      | succ n => exact h.bindings (.frame n) name
    | locals => exact h.bindings .locals name
    | globals => exact h.bindings .globals name

/-- A note of a call that is left describes the environment without its frame. -/
theorem Describes.popFrame (h : j.Describes env) :
    (j.note .popFrame).Describes env.popFrame where
  numbered := h.numbered.popFrame
  depth := by
    rw [Environment.depth, Environment.popFrame, List.length_tail, note, List.length_tail]
    exact congrArg (· - 1) h.depth
  bindings place name := by
    cases place with
    | frame n =>
      have houter := h.bindings (.frame (n + 1)) name
      rw [Environment.binding?, Environment.scope?, ownerAt] at houter ⊢
      rw [Environment.popFrame, note, List.getElem?_tail, List.getElem?_tail]
      exact houter
    | locals => exact h.bindings .locals name
    | globals => exact h.bindings .globals name

/-- A change keeps an environment and its journal together. -/
theorem Describes.change (h : j.Describes env) (c : Change) :
    (j.note c).Describes (env.change c) := by
  cases c with
  | set name v => exact h.write h.ownerAt_assignedIn (Environment.changedOnly_set name v env)
  | setGlobal name v => exact h.write rfl (Environment.changedOnly_setGlobal name v env)
  | replace name v => exact h.replace name v
  | pushFrame => exact h.pushFrame
  | popFrame => exact h.popFrame

/-- The journal of some changes describes what they make. -/
theorem describes_ofChanges (changes : List Change) :
    (ofChanges changes).Describes (.ofChanges changes) := by
  have hfrom : ∀ {j : Journal} {env : Environment}, j.Describes env →
      (changes.foldl note j).Describes (changes.foldl Environment.change env) := by
    induction changes with
    | nil => exact id
    | cons c changes ih => exact fun h => ih (h.change c)
  exact hfrom describes_empty

end Journal

/-- However an environment came about from one that binds nothing, by bindings, global bindings,
changes of what names are bound to, and calls entered and left: a lookup gives the value last
written to the name in the innermost frame if that binds it, else among the locals, else among the
globals, and nothing if none of them binds it. A change of a name that is bound changes the one
binding that a lookup of the name reads, no other in any scope, and so no other lookup; a change of
one that is not bound changes nothing. A call that only binds names leaves the environment as it was
before it, and there is nothing to leave where no call is under way. -/
theorem lookups_follow_writes (changes : List Change) :
    let env := Environment.ofChanges changes
    (∀ name, env.get? name = (Journal.ofChanges changes).read name) ∧
      (∀ name v before, env.get? name = some before →
        ∃ place, env.foundIn name = some place ∧ env.binding? place name = some before ∧
          Environment.ChangedOnly place name v env (env.replace name v) ∧
          ∀ other, (env.replace name v).get? other =
            if other = name then some v else env.get? other) ∧
      (∀ name v, env.get? name = none → env.replace name v = env) ∧
      (∀ writes : List (String × Value),
        (writes.foldl (fun env w => env.set w.1 w.2) env.pushFrame).popFrame = env) ∧
      (env.depth = 0 → env.popFrame = env) := by
  intro env
  refine ⟨(Journal.describes_ofChanges changes).get?_eq, fun name v before hbefore => ?_,
    fun name v hunbound => Environment.replace_of_unbound hunbound v,
    fun writes => Environment.popFrame_foldl_set writes env,
    Environment.popFrame_of_depth_eq_zero⟩
  have hread := hbefore
  rw [Environment.get?_eq_binding?] at hread
  obtain ⟨place, hplace, hbinding⟩ := Option.bind_eq_some_iff.mp hread
  exact ⟨place, hplace, hbinding, Environment.changedOnly_replace hplace v,
    Environment.get?_replace (Option.isSome_of_mem hbefore) v⟩

/-- A call that changes a name of the session changes it for good, and what it binds is gone. -/
example : let env := Environment.ofChanges [.set "x" (.bool false), .pushFrame,
      .set "y" (.bool false), .replace "x" (.bool true), .popFrame]
    env.get? "x" = some (.bool true) ∧ env.get? "y" = none := ⟨rfl, rfl⟩

end ScriptShell
