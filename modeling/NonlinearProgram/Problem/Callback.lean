import NonlinearProgram.Fault
import NonlinearProgram.Matrix.Coordinate

-- A callback is a program over the arrays of one call. It reads and overwrites entries of the
-- point, of the output and of the multipliers, and it overwrites entries of the matrix blocks;
-- nothing else is within its reach. Reading or overwriting an entry that a vector does not have
-- raises a fault, and so does changing one that may not be changed; matrix blocks ignore entries
-- outside. What a callback wrote before it raised a fault stays written.

namespace NonlinearProgram

inductive Slot where
  | point
  | output
  | multipliers
deriving DecidableEq, Repr

structure Workspace (α : Type) where
  triplets : List (Triplet α) := []
  dense : Rows α := []
  coupling : RawValue α := .integer 0

inductive Callback (α ρ : Type) where
  | done (result : ρ)
  | raise (fault : Fault)
  | read (slot : Slot) (i : Nat) (next : α → Callback α ρ)
  | write (slot : Slot) (i : Nat) (x : α) (next : Callback α ρ)
  | setTriplet (k : Nat) (row column : Except Fault Int) (x : α) (next : Callback α ρ)
  | setDense (i j : Nat) (x : α) (next : Callback α ρ)
  | setCoupling (count : RawValue α) (next : Callback α ρ)

structure Arena (α : Type) where
  store : Store α
  workspace : Workspace α := {}

namespace Arena

variable {α : Type}

-- The entry of a vector at an index. An array with several axes has slices there.
def entry (a : Arena α) (v : View) (i : Nat) : Except Fault α :=
  match v.shape with
  | [] => .error .noIndex
  | [_] => (a.store.entries v)[i]?.elim (.error .noIndex) .ok
  | n :: _ => .error (if i < n then .noNumber else .noIndex)

def withEntry (a : Arena α) (v : View) (i : Nat) (x : α) : Except Fault (Arena α) :=
  if !a.store.writable v then .error .readOnly
  else if v.length?.any (i < ·) then .ok { a with store := a.store.setSlice v i x }
  else .error .noIndex

def index32 (i : Except Fault Int) : Except Fault Int := do
  let n ← i
  if isInt32 n then return n else throw (.outsideInt32 n)

-- A triplet overwritten: its row, its column and its value, in this order, up to an index that
-- cannot be kept.
def withTriplet (a : Arena α) (k : Nat) (row column : Except Fault Int) (x : α) :
    Option Fault × Arena α :=
  let change (f : Triplet α → Triplet α) : Arena α :=
    { a with workspace := { a.workspace with triplets := a.workspace.triplets.modify k f } }
  match index32 row, index32 column with
  | .error fault, _ => (some fault, a)
  | .ok i, .error fault => (some fault, change fun old => { old with row := i })
  | .ok i, .ok j => (none, change fun _ => ⟨i, j, x⟩)

end Arena

namespace Callback

variable {α ρ σ : Type}

protected def bind : Callback α ρ → (ρ → Callback α σ) → Callback α σ
  | done r, f => f r
  | raise e, _ => raise e
  | read slot i next, f => read slot i fun x => (next x).bind f
  | write slot i x next, f => write slot i x (next.bind f)
  | setTriplet k i j x next, f => setTriplet k i j x (next.bind f)
  | setDense i j x next, f => setDense i j x (next.bind f)
  | setCoupling n next, f => setCoupling n (next.bind f)

instance : Monad (Callback α) where
  pure := done
  bind := Callback.bind

def ofExcept : Except Fault ρ → Callback α ρ
  | .ok r => done r
  | .error e => raise e

def entry (slot : Slot) (i : Nat) : Callback α α := read slot i done

def put (slot : Slot) (i : Nat) (x : α) : Callback α Unit := write slot i x (done ())

def putTriplet (k : Nat) (row column : Except Fault Int) (x : α) : Callback α Unit :=
  setTriplet k row column x (done ())

def putDense (i j : Nat) (x : α) : Callback α Unit := setDense i j x (done ())

def putCoupling (count : RawValue α) : Callback α Unit := setCoupling count (done ())

def run (slots : Slot → Option View) : Callback α ρ → Arena α → Except Fault ρ × Arena α
  | done r, a => (.ok r, a)
  | raise e, a => (.error e, a)
  | read slot i next, a =>
    match (slots slot).elim (.error .noIndex) (a.entry · i) with
    | .ok x => (next x).run slots a
    | .error e => (.error e, a)
  | write slot i x next, a =>
    match slots slot with
    | none => next.run slots a
    | some v =>
      match a.withEntry v i x with
      | .ok a => next.run slots a
      | .error e => (.error e, a)
  | setTriplet k i j x next, a =>
    match a.withTriplet k i j x with
    | (none, a) => next.run slots a
    | (some e, a) => (.error e, a)
  | setDense i j x next, a =>
    next.run slots { a with
      workspace := { a.workspace with dense := a.workspace.dense.setEntry i j x } }
  | setCoupling n next, a =>
    next.run slots { a with workspace := { a.workspace with coupling := n } }

@[simp] theorem run_done (slots : Slot → Option View) (r : ρ) (a : Arena α) :
    (done r : Callback α ρ).run slots a = (.ok r, a) := rfl

@[simp] theorem run_raise (slots : Slot → Option View) (e : Fault) (a : Arena α) :
    (raise e : Callback α ρ).run slots a = (.error e, a) := rfl

theorem run_bind (slots : Slot → Option View) (c : Callback α ρ) (f : ρ → Callback α σ)
    (a : Arena α) :
    (c >>= f).run slots a =
      match c.run slots a with
      | (.ok r, b) => (f r).run slots b
      | (.error e, b) => (.error e, b) := by
  change (c.bind f).run slots a = _
  induction c generalizing a with
  | done r => rfl
  | raise e => rfl
  | read slot i next ih =>
    simp only [Callback.bind, run]
    cases (slots slot).elim (.error .noIndex) (a.entry · i) <;> simp [ih]
  | write slot i x next ih =>
    simp only [Callback.bind, run]
    cases slots slot with
    | none => simp [ih]
    | some v => cases h : a.withEntry v i x <;> simp [h, ih]
  | setTriplet k i j x next ih =>
    simp only [Callback.bind, run]
    rcases h : a.withTriplet k i j x with ⟨_ | e, b⟩ <;> simp [ih]
  | setDense i j x next ih => simp [Callback.bind, run, ih]
  | setCoupling n next ih => simp [Callback.bind, run, ih]

end Callback
end NonlinearProgram
