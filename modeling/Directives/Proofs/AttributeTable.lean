import Directives.Proofs.RegisteredFrame
/-!
The attributes that a frame holds, under operations on them in any order: entries that clauses ask for,
entries that are inferred, and rejections. No variable comes to be both entered and rejected. What a
clause says of a variable stays, but that a firstprivate variable can become lastprivate as well, once.
-/

namespace Directives

/-- An operation on the attributes that a frame holds. -/
inductive AttributeOp where
  | insertExplicit (var : DeclId) (e : Entry)
  | insertImplicit (var : DeclId) (e : Entry)
  | reject (var : DeclId)
  deriving DecidableEq, Repr

namespace AttributeOp

/-- The frame after the operation. -/
def apply (f : Frame) : AttributeOp → Frame
  | .insertExplicit var e => (f.insertExplicit var e).1
  | .insertImplicit var e => (f.insertImplicit var e).1
  | .reject var => f.reject var

/-- An entry that a clause asks for is as clauses make it: not implicit, and not merged from two. Of what
is inferred nothing is asked. -/
def IsMade : AttributeOp → Prop
  | .insertExplicit _ e => e.implicit = false ∧ e.alsoFirstprivate = false
  | .insertImplicit _ _ | .reject _ => True

instance : (op : AttributeOp) → Decidable op.IsMade
  | .insertExplicit _ e => inferInstanceAs (Decidable (e.implicit = false ∧ e.alsoFirstprivate = false))
  | .insertImplicit _ _ | .reject _ => inferInstanceAs (Decidable True)

/-- The frame does not take the operation: it has an entry that conflicts or says the same, it knows the
variable that is inferred, or it has an entry for the one that is to be rejected. -/
def IsRefused (f : Frame) : AttributeOp → Prop
  | .insertExplicit var e =>
    (f.insertExplicit var e).2 = .duplicate ∨ ∃ old, (f.insertExplicit var e).2 = .conflict old
  | .insertImplicit var e => (f.insertImplicit var e).2 = false
  | .reject var => (f.entryOf? var).isSome

/-- The frame after the operations, one after the other. -/
def run (f : Frame) (ops : List AttributeOp) : Frame := ops.foldl apply f

/-- The states of the frame before the operations, between them and after them. -/
def states (f : Frame) : List AttributeOp → List Frame
  | [] => [f]
  | op :: rest => f :: states (op.apply f) rest

end AttributeOp

/-- One of the operations infers the entry: it is the one that the operation was given, but implicit. -/
def Entry.InferredBy (e : Entry) (v : DeclId) (ops : List AttributeOp) : Prop :=
  ∃ given, .insertImplicit v given ∈ ops ∧ e = { given with implicit := true }

/-- No variable is both entered and rejected, and only what is lastprivate was merged, if it does not stand
as one of the operations inferred it. -/
structure Frame.IsCoherent (f : Frame) (ops : List AttributeOp) : Prop where
  apart : ∀ v, f.isRejected v = true → f.entryOf? v = none
  merged : ∀ v e, f.entryOf? v = some e → e.alsoFirstprivate = true →
    e.kind = .lastprivate ∨ e.InferredBy v ops

/-- What can become of an explicit entry: it stays explicit and of its kind, but that one for a
firstprivate variable can be merged into one for a lastprivate variable. -/
structure Entry.Becomes (e e' : Entry) : Prop where
  explicit : e'.implicit = false
  kind : e'.kind = e.kind ∨
    e.kind = .firstprivate ∧ e'.kind = .lastprivate ∧ e'.alsoFirstprivate = true
  both : e.alsoFirstprivate = true → e'.alsoFirstprivate = true

/-- Through the states, the variable has an entry that stems from `e`, and its kind changes at most
once. -/
structure Entry.Persists (e : Entry) (v : DeclId) (states : List Frame) : Prop where
  stays : ∀ f ∈ states, ∃ e', f.entryOf? v = some e' ∧ e.Becomes e'
  once : ∃ m n, states.map (fun f => (f.entryOf? v).map (·.kind)) =
    List.replicate m (some e.kind) ++ List.replicate n (some .lastprivate)

/-! ## One operation -/

/-- What one operation makes of what is recorded for a variable. -/
inductive Entry.Follows (op : AttributeOp) (v : DeclId) : Option Entry → Option Entry → Prop where
  | kept {e?} : Follows op v e? e?
  | listed {old? e} (gives : ∀ old, old? = some old → old.implicit = true)
      (explicit : e.implicit = false) (single : e.alsoFirstprivate = false) : Follows op v old? (some e)
  | inferred {e} (inferred : e.InferredBy v [op]) : Follows op v none (some e)
  | merged {old e} (first : old.kind = .firstprivate) (last : e.kind = .lastprivate)
      (both : e.alsoFirstprivate = true) (explicit : e.implicit = false) :
      Follows op v (some old) (some e)
  | joined {old} (last : old.kind = .lastprivate) :
      Follows op v (some old) (some { old with alsoFirstprivate := true })

section
variable {f : Frame} {op : AttributeOp} {ops all : List AttributeOp} {var v : DeclId} {e : Entry}

theorem Entry.Follows.setEntry (f : Frame) (v : DeclId)
    (step : Follows op var (f.entryOf? var) (some e)) :
    Follows op v (f.entryOf? v) ((f.setEntry var e).entryOf? v) := by
  by_cases same : var = v
  · subst same
    rw [Frame.entryOf?_setEntry_self]
    exact step
  · rw [Frame.entryOf?_setEntry_of_ne same]
    exact .kept

theorem Frame.follows_insertExplicit (f : Frame) (v : DeclId) (explicit : e.implicit = false)
    (single : e.alsoFirstprivate = false) :
    Entry.Follows op v (f.entryOf? v) ((f.insertExplicit var e).1.entryOf? v) := by
  have inserts := f.insertsExplicit var e
  generalize f.insertExplicit var e = result at inserts ⊢
  cases inserts with
  | first unknown =>
    have step : Entry.Follows op var (f.entryOf? var) (some e) := by
      rw [unknown]
      exact .listed (fun _ is => nomatch is) explicit single
    exact step.setEntry f v
  | replaced held gives =>
    apply Entry.Follows.setEntry
    rw [held]
    exact .listed (fun _ is => Option.some.inj is ▸ gives) explicit single
  | merged held _ first last =>
    apply Entry.Follows.setEntry
    rw [held]
    exact .merged first last rfl explicit
  | joined held _ last =>
    apply Entry.Follows.setEntry
    rw [held]
    exact .joined last
  | duplicate | conflict => exact .kept

theorem AttributeOp.follows (made : op.IsMade) (f : Frame) (v : DeclId) :
    Entry.Follows op v (f.entryOf? v) ((op.apply f).entryOf? v) := by
  cases op with
  | insertExplicit var e => exact f.follows_insertExplicit v made.1 made.2
  | insertImplicit var e =>
    rw [apply]
    obtain same | ⟨unknown, -, recorded⟩ := f.insertImplicit_cases var e
    · rw [same]
      exact .kept
    · rw [recorded]
      apply Entry.Follows.setEntry
      rw [unknown]
      exact .inferred ⟨e, List.mem_singleton_self _, rfl⟩
  | reject var =>
    rw [apply, Frame.entryOf?_reject]
    exact .kept

/-- An entry for a variable that is not rejected keeps entries and rejections apart. -/
theorem Frame.apart_setEntry (apart : ∀ v, f.isRejected v = true → f.entryOf? v = none)
    (accepted : f.isRejected var = false) (v : DeclId) (rejected : f.isRejected v = true) :
    (f.setEntry var e).entryOf? v = none := by
  have other : var ≠ v := by
    rintro rfl
    rw [accepted] at rejected
    cases rejected
  rw [entryOf?_setEntry_of_ne other]
  exact apart v rejected

theorem Frame.apart_insertExplicit (apart : ∀ v, f.isRejected v = true → f.entryOf? v = none)
    (v : DeclId) (rejected : (f.insertExplicit var e).1.isRejected v = true) :
    (f.insertExplicit var e).1.entryOf? v = none := by
  have accepted {old : Entry} (held : f.entryOf? var = some old) : f.isRejected var = false := by
    rw [Bool.eq_false_iff]
    intro marked
    rw [apart var marked] at held
    cases held
  have inserts := f.insertsExplicit var e
  generalize f.insertExplicit var e = result at inserts rejected ⊢
  cases inserts with
  | first unknown =>
    -- The rejection of the variable is lifted, and the others stay.
    have lifted : ∀ v, ({ f with rejected := f.rejected.erase var } : Frame).isRejected v = true →
        f.entryOf? v = none := by
      intro v still
      by_cases same : var = v
      · exact same ▸ unknown
      · apply apart
        simpa [isRejected, SortedMap.contains, SortedMap.get?_erase_of_ne _ same] using still
    have open' : ({ f with rejected := f.rejected.erase var } : Frame).isRejected var = false := by
      simp [isRejected, SortedMap.contains]
    exact apart_setEntry lifted open' v rejected
  | replaced held | merged held | joined held => exact apart_setEntry apart (accepted held) v rejected
  | duplicate | conflict => exact apart v rejected

theorem Frame.apart_reject (apart : ∀ v, f.isRejected v = true → f.entryOf? v = none) (v : DeclId)
    (rejected : (f.reject var).isRejected v = true) : (f.reject var).entryOf? v = none := by
  rw [entryOf?_reject]
  by_cases same : var = v
  · subst same
    cases held : f.entryOf? var with
    | none => rfl
    | some e =>
      have spared : f.reject var = f := if_pos (congrArg Option.isSome held)
      rw [spared] at rejected
      rw [apart var rejected] at held
      cases held
  · rw [isRejected_reject_of_ne same] at rejected
    exact apart v rejected

theorem AttributeOp.isCoherent_apply (made : op.IsMade) (within : op ∈ all) (h : f.IsCoherent all) :
    (op.apply f).IsCoherent all where
  apart := by
    cases op with
    | insertExplicit var e => exact Frame.apart_insertExplicit h.apart
    | insertImplicit var e =>
      rw [apply]
      obtain same | ⟨-, accepted, recorded⟩ := f.insertImplicit_cases var e
      · rw [same]
        exact h.apart
      · rw [recorded]
        exact Frame.apart_setEntry h.apart accepted
    | reject var => exact Frame.apart_reject h.apart
  merged := by
    intro v e held both
    have step := op.follows made f v
    rw [held] at step
    generalize before : f.entryOf? v = e? at step
    cases step with
    | kept => exact h.merged v e before both
    | listed _ _ single =>
      rw [single] at both
      cases both
    | inferred inferred =>
      obtain ⟨given, is, rfl⟩ := inferred
      exact .inr ⟨given, List.mem_singleton.mp is ▸ within, rfl⟩
    | merged _ last => exact .inl last
    | joined last => exact .inl last

/-! ## Runs of operations -/

theorem Frame.isCoherent_opened (kind : DirectiveKind) (name : Option String) (location : Location) :
    ({ kind, name, location } : Frame).IsCoherent ops where
  apart _ _ := rfl
  merged _ _ held := nomatch held

theorem AttributeOp.isCoherent_run (made : ∀ op ∈ ops, op.IsMade) (within : ops ⊆ all)
    (h : f.IsCoherent all) : (run f ops).IsCoherent all := by
  induction ops generalizing f with
  | nil => exact h
  | cons op rest ih =>
    rw [List.forall_mem_cons] at made
    rw [List.cons_subset] at within
    exact ih made.2 within.2 (op.isCoherent_apply made.1 within.1 h)

namespace Entry

variable {e' e'' : Entry}

theorem Becomes.refl (explicit : e.implicit = false) : e.Becomes e := ⟨explicit, .inl rfl, id⟩

theorem Becomes.trans (h : e.Becomes e') (h' : e'.Becomes e'') : e.Becomes e'' where
  explicit := h'.explicit
  kind := by
    obtain same | ⟨first, last, both⟩ := h.kind
    · rw [← same]
      exact h'.kind
    · obtain same | ⟨again, -⟩ := h'.kind
      · exact .inr ⟨first, same.trans last, h'.both both⟩
      · rw [last] at again
        cases again
  both := h'.both ∘ h.both

theorem Follows.becomes {e? : Option Entry} (step : Follows op v (some e) e?)
    (explicit : e.implicit = false) : ∃ e', e? = some e' ∧ e.Becomes e' := by
  cases step with
  | kept => exact ⟨e, rfl, .refl explicit⟩
  | listed gives =>
    rw [gives e rfl] at explicit
    cases explicit
  | merged first last both explicit' =>
    exact ⟨_, rfl, explicit', .inr ⟨first, last, both⟩, fun _ => both⟩
  | joined => exact ⟨_, rfl, explicit, .inl rfl, fun _ => rfl⟩

/-- The invariant of the induction is the entry with which the rest of the operations begins. -/
theorem persists_states (made : ∀ op ∈ ops, op.IsMade) (held : f.entryOf? v = some e)
    (explicit : e.implicit = false) : e.Persists v (AttributeOp.states f ops) := by
  induction ops generalizing f e with
  | nil =>
    constructor
    · intro g hg
      cases List.mem_singleton.mp hg
      exact ⟨e, held, .refl explicit⟩
    · exact ⟨1, 0, by simp [AttributeOp.states, held]⟩
  | cons op rest ih =>
    rw [List.forall_mem_cons] at made
    have step := op.follows made.1 f v
    rw [held] at step
    obtain ⟨e', held', becomes⟩ := step.becomes explicit
    have later := ih made.2 held' becomes.explicit
    constructor
    · intro g hg
      obtain rfl | hg := List.mem_cons.mp hg
      · exact ⟨e, held, .refl explicit⟩
      · obtain ⟨e'', held'', becomes'⟩ := later.stays g hg
        exact ⟨e'', held'', becomes.trans becomes'⟩
    · obtain ⟨m, n, kinds⟩ := later.once
      rw [AttributeOp.states, List.map_cons, held, kinds]
      obtain same | ⟨-, last, -⟩ := becomes.kind
      · refine ⟨m + 1, n, ?_⟩
        rw [same, List.replicate_succ]
        rfl
      · refine ⟨1, m + n, ?_⟩
        rw [last, ← List.replicate_append_replicate]
        rfl

end Entry

theorem AttributeOp.apply_of_isRefused (refused : op.IsRefused f) : op.apply f = f := by
  cases op with
  | insertExplicit var e =>
    rw [apply]
    rw [IsRefused] at refused
    have inserts := f.insertsExplicit var e
    generalize f.insertExplicit var e = result at inserts refused ⊢
    cases inserts with
    | first | replaced | merged | joined => simp at refused
    | duplicate | conflict => rfl
  | insertImplicit var e =>
    rw [apply]
    rw [IsRefused] at refused
    obtain same | ⟨-, -, recorded⟩ := f.insertImplicit_cases var e
    · rw [same]
    · rw [recorded] at refused
      cases refused
  | reject var => exact if_pos refused

end

/-- In a frame that was opened, after any operations on its attributes, no variable is both rejected and
entered, and only what is lastprivate was merged, but for entries that stand as they were inferred. What a
clause said of a variable stays through all further operations, but for one change from firstprivate to
lastprivate, and an operation that is refused changes nothing. -/
theorem attributes_stay_coherent (kind : DirectiveKind) (name : Option String) (location : Location)
    {ops : List AttributeOp} (made : ∀ op ∈ ops, op.IsMade) :
    let f := AttributeOp.run { kind, name, location } ops
    f.IsCoherent ops ∧
      (∀ later : List AttributeOp, (∀ op ∈ later, op.IsMade) → ∀ v e, f.entryOf? v = some e →
        e.implicit = false → e.Persists v (AttributeOp.states f later)) ∧
      ∀ op : AttributeOp, op.IsRefused f → op.apply f = f := by
  intro f
  refine ⟨?_, ?_, ?_⟩
  · exact AttributeOp.isCoherent_run made (List.Subset.refl ops)
      (Frame.isCoherent_opened kind name location)
  · intro later made' v e held explicit
    exact Entry.persists_states made' held explicit
  · intro op refused
    exact op.apply_of_isRefused refused

/-- One variable is listed as firstprivate and then as lastprivate, and after that as shared, which is
refused. Another one is rejected, so that nothing is inferred for it, until it is listed. For the third
one a clause comes after inference, and the last one is inferred as merged. -/
theorem attributes_stay_coherent_merged :
    let x : DeclId := ⟨0⟩
    let y : DeclId := ⟨1⟩
    let z : DeclId := ⟨2⟩
    let u : DeclId := ⟨3⟩
    let entry (kind : Sharing) : Entry := { kind, location := ⟨1, 1⟩ }
    let ops : List AttributeOp := [.insertExplicit x (entry .firstprivate), .reject y,
      .insertImplicit y (entry .shared), .insertImplicit z (entry .priv),
      .insertImplicit u { entry .shared with alsoFirstprivate := true }]
    let later : List AttributeOp := [.insertExplicit x (entry .lastprivate), .reject x,
      .insertExplicit x (entry .shared), .insertExplicit y (entry .shared),
      .insertExplicit z (entry .reduction)]
    let f := AttributeOp.run { kind := .parallelFor } ops
    let g := AttributeOp.run f later
    (∀ op ∈ ops, op.IsMade) ∧ (∀ op ∈ later, op.IsMade) ∧
      f.isRejected y = true ∧ (f.entryOf? y).isNone ∧
      (g.entryOf? x).map (fun e => (e.kind, e.alsoFirstprivate)) = some (.lastprivate, true) ∧
      g.isRejected y = false ∧
      (g.entryOf? z).map (fun e => (e.kind, e.implicit)) = some (.reduction, false) ∧
      (g.entryOf? u).map (fun e => (e.kind, e.implicit)) = some (.shared, true) ∧
      f.IsCoherent ops ∧ (entry .firstprivate).Persists x (AttributeOp.states f later) := by
  intro x y z u entry ops later f g
  have made : ∀ op ∈ ops, op.IsMade := by decide
  have made' : ∀ op ∈ later, op.IsMade := by decide
  have held : f.entryOf? x = some (entry .firstprivate) := by decide
  obtain ⟨coherent, persists, -⟩ := attributes_stay_coherent .parallelFor none {} made
  refine ⟨made, made', by decide, by decide, by decide, by decide, by decide, by decide,
    coherent, ?_⟩
  exact persists later made' x (entry .firstprivate) held (by decide)

/-- A shared entry that says it was merged is inferred as it is. -/
theorem merged_entry_inferred :
    let given : Entry := { kind := .shared, location := ⟨1, 1⟩, alsoFirstprivate := true }
    let ops : List AttributeOp := [.insertImplicit ⟨0⟩ given]
    let f := AttributeOp.run { kind := .parallel } ops
    (∀ op ∈ ops, op.IsMade) ∧ f.entryOf? ⟨0⟩ = some { given with implicit := true } ∧
      ¬ ∀ v e, f.entryOf? v = some e → e.alsoFirstprivate = true → e.kind = .lastprivate := by
  intro given ops f
  have held : f.entryOf? ⟨0⟩ = some { given with implicit := true } := by decide
  refine ⟨by decide, held, fun merged => ?_⟩
  cases merged _ _ held rfl

end Directives
