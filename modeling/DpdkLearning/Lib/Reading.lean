import DpdkLearning.Lib.Cursor

/-!
This module contains programs that read memory byte by byte, with the addresses that they read.
-/

namespace Lib

/--
A program that reads memory. It sees no more of the memory than what it reads.
-/
inductive Reading (α : Type) where
  | done (a : α)
  | read (addr : Nat) (next : UInt8 → Reading α)

namespace Reading

variable {α β : Type}

def bind : Reading α → (α → Reading β) → Reading β
  | .done a, f => f a
  | .read addr next, f => .read addr (fun b => (next b).bind f)

instance : Monad Reading where
  pure := .done
  bind := bind

def byte (addr : Nat) : Reading UInt8 :=
  .read addr .done

/--
What the program returns.
-/
def run (m : Memory) : Reading α → α
  | .done a => a
  | .read addr next => (next (m addr)).run m

/--
The addresses that the program reads, in order.
-/
def reads (m : Memory) : Reading α → List Nat
  | .done _ => []
  | .read addr next => addr :: (next (m addr)).reads m

variable {m m' : Memory} {p : Reading α} {f : α → Reading β}

@[simp]
theorem run_pure (a : α) : (pure a : Reading α).run m = a := rfl

@[simp]
theorem reads_pure (a : α) : (pure a : Reading α).reads m = [] := rfl

@[simp]
theorem run_byte (addr : Nat) : (byte addr).run m = m addr := rfl

@[simp]
theorem reads_byte (addr : Nat) : (byte addr).reads m = [addr] := rfl

@[simp]
theorem run_bind : (p >>= f).run m = (f (p.run m)).run m := by
  change (p.bind f).run m = _
  induction p with
  | done a => rfl
  | read addr next ih => exact ih (m addr)

@[simp]
theorem reads_bind : (p >>= f).reads m = p.reads m ++ (f (p.run m)).reads m := by
  change (p.bind f).reads m = _
  induction p with
  | done a => rfl
  | read addr next ih => exact congrArg (addr :: ·) (ih (m addr))

/-- What a program returns and reads depends on what it reads only. -/
theorem run_congr (h : ∀ i ∈ p.reads m, m i = m' i) : p.run m = p.run m' ∧ p.reads m = p.reads m' := by
  induction p with
  | done a => exact ⟨rfl, rfl⟩
  | read addr next ih =>
    unfold reads at h
    rw [List.forall_mem_cons] at h
    have hnext := ih (m addr) h.2
    rw [run, run, reads, reads, ← h.1]
    exact ⟨hnext.1, congrArg (addr :: ·) hnext.2⟩

def get16Be (addr : Nat) : Reading UInt16 := do
  let high ← byte addr
  let low ← byte (addr + 1)
  pure (Memory.toUInt16Be [high, low])

@[simp]
theorem run_get16Be (addr : Nat) : (get16Be addr).run m = m.load16Be addr := rfl

@[simp]
theorem reads_get16Be (addr : Nat) : (get16Be addr).reads m = [addr, addr + 1] := rfl

end Reading

end Lib
