import Mathlib

/-!
Readers over bytes: what a reader takes for a value, what it can only have accepted, and how
far it looks ahead. Big-endian numbers are the fixed-width case.
-/

namespace Wire

variable (bytes : List UInt8)

def Reader (ε α : Type) : Type := List UInt8 → Except ε (α × List UInt8)

namespace Reader

variable {ε α β : Type}

variable {len : Nat} {input : List UInt8} {ahead : Nat} {rest : List UInt8}

def ret (value : α) : Reader ε α := fun input => .ok (value, input)

def andThen (first : Reader ε α) (next : α → Reader ε β) : Reader ε β := fun input =>
  match first input with
  | .error error => .error error
  | .ok (value, rest) => next value rest

instance : Monad (Reader ε) where
  pure := ret
  bind := andThen

def lift (result : Except ε α) : Reader ε α := fun input =>
  match result with
  | .error error => .error error
  | .ok value => .ok (value, input)

def take (short : Nat → ε) (len : Nat) : Reader ε (List UInt8) := fun input =>
  if len > input.length then .error (short input.length)
  else .ok (input.take len, input.drop len)

def Within (ahead : Nat) (reader : Reader ε α) : Prop :=
  ∀ input more, ahead ≤ input.length →
    match reader input with
    | .error error => reader (input ++ more) = .error error
    | .ok (value, rest) => reader (input ++ more) = .ok (value, rest ++ more) ∧
        input.length ≤ rest.length + ahead

def Fails (blame : ε → Prop) (reader : Reader ε α) : Prop :=
  ∀ input error, reader input = .error error → blame error

theorem bind_ok {next : α → Reader ε β} :
    (first >>= next) input = .ok (value, rest) ↔
      ∃ read middle, first input = .ok (read, middle) ∧ next read middle = .ok (value, rest) := by
  change andThen first next input = _ ↔ _
  unfold andThen
  cases first input with
  | error error => simp
  | ok answer =>
    obtain ⟨read, middle⟩ := answer
    simp

theorem bind_run {read : α} (answer : first input = .ok (read, middle)) {next : α → Reader ε β} :
    (first >>= next) input = next read middle := by
  change andThen first next input = _
  unfold andThen
  rw [answer]

theorem bind_error (answer : first input = .error error) {next : α → Reader ε β} :
    (first >>= next) input = .error error := by
  change andThen first next input = _
  unfold andThen
  rw [answer]

theorem lift_ok : lift result input = .ok (value, rest) ↔ result = .ok value ∧ rest = input := by
  unfold lift
  cases result with
  | error error => simp
  | ok read => simp [eq_comm]

theorem take_ok {short : Nat → ε} {bytes : List UInt8} :
    take short len input = .ok (bytes, rest) ↔ bytes.length = len ∧ input = bytes ++ rest := by
  unfold take
  split
  next beyond =>
    constructor
    · simp
    · rintro ⟨rfl, rfl⟩
      simp only [List.length_append] at beyond
      omega
  next enough =>
    constructor
    · intro same
      cases same
      exact ⟨by simp; omega, (List.take_append_drop len input).symm⟩
    · rintro ⟨rfl, rfl⟩
      simp

theorem take_short (few : input.length < len) :
    take short len input = .error (short input.length) :=
  if_pos few

theorem within_ret : (pure value : Reader ε α).Within 0 :=
  fun _ _ _ => ⟨rfl, Nat.le_refl _⟩

theorem within_lift : (lift result).Within 0 := by
  intro input more _
  cases result with
  | error error => rfl
  | ok value => exact ⟨rfl, Nat.le_refl _⟩

theorem within_take (enough : len ≤ ahead) : (take short len).Within ahead := by
  intro input more long
  have here : ¬len > input.length := by omega
  have there : ¬len > (input ++ more).length := by simp; omega
  simp only [take, if_neg here, if_neg there]
  refine ⟨?_, by simp; omega⟩
  rw [List.take_append_of_le_length (by omega), List.drop_append_of_le_length (by omega)]

theorem Within.bind {next : α → Reader ε β} (within : first.Within ahead)
    (each : ∀ read, (next read).Within further) :
    (first >>= next).Within (ahead + further) := by
  intro input more long
  change match andThen first next input with
    | .error error => andThen first next (input ++ more) = .error error
    | .ok (value, rest) => andThen first next (input ++ more) = .ok (value, rest ++ more) ∧ _
  have here := within input more (by omega)
  unfold andThen
  cases answer : first input with
  | error error =>
    rw [answer] at here
    simp only [here]
  | ok result =>
    obtain ⟨read, middle⟩ := result
    rw [answer] at here
    obtain ⟨same, used⟩ := here
    have later := each read middle more (by omega)
    simp only [same]
    cases onward : next read middle with
    | error error =>
      rw [onward] at later
      exact later
    | ok final =>
      rw [onward] at later
      exact ⟨later.1, by have := later.2; omega⟩

theorem fails_ret : (pure value : Reader ε α).Fails blame := by
  intro input error failed
  cases failed

theorem fails_lift {result : Except ε α} (each : ∀ error, result = .error error → blame error) :
    (lift result).Fails blame := by
  intro input error failed
  cases result with
  | error first =>
    cases failed
    exact each error rfl
  | ok value => cases failed

theorem fails_take (each : ∀ available, blame (short available)) :
    (take short len).Fails blame := by
  intro input error failed
  unfold take at failed
  split at failed
  · cases failed
    exact each _
  · cases failed

theorem Fails.bind {next : α → Reader ε β} (before : first.Fails blame)
    (after : ∀ read, (next read).Fails blame) :
    (first >>= next).Fails blame := by
  intro input error failed
  change andThen first next input = _ at failed
  unfold andThen at failed
  split at failed
  next own answer =>
    cases failed
    exact before input error answer
  next read middle answer => exact after read middle error failed

theorem Within.mono {reader : Reader ε α} (within : reader.Within ahead) (order : ahead ≤ more) :
    reader.Within more := by
  intro input after long
  have here := within input after (by omega)
  split at here
  next error answer => exact here
  next value rest answer => exact ⟨here.1, by have := here.2; omega⟩

end Reader

def beBytes : (width value : Nat) → List UInt8
  | 0, _ => []
  | width + 1, value => beBytes width (value / 256) ++ [UInt8.ofNat (value % 256)]

def fromBe (bytes : List UInt8) : Nat :=
  bytes.foldl (fun value byte => value * 256 + byte.toNat) 0

@[simp]
theorem length_beBytes : (beBytes width value).length = width := by
  induction width generalizing value with
  | zero => rfl
  | succ width ih => simp [beBytes, ih]

theorem fromBe_append_singleton (last : UInt8) :
    fromBe (bytes ++ [last]) = fromBe bytes * 256 + last.toNat := by
  simp [fromBe]

theorem fromBe_beBytes (fits : value < 256 ^ width) : fromBe (beBytes width value) = value := by
  induction width generalizing value with
  | zero =>
    have : value = 0 := by simpa using fits
    simp [beBytes, fromBe, this]
  | succ width ih =>
    rw [beBytes, fromBe_append_singleton, ih (by rw [pow_succ] at fits; omega)]
    simp only [UInt8.toNat_ofNat']
    omega

theorem beBytes_fromBe : beBytes bytes.length (fromBe bytes) = bytes := by
  induction bytes using List.reverseRecOn with
  | nil => rfl
  | append_singleton bytes last ih =>
    have small : last.toNat < 256 := last.toNat_lt
    rw [List.length_append, List.length_singleton, beBytes, fromBe_append_singleton]
    rw [show (fromBe bytes * 256 + last.toNat) / 256 = fromBe bytes by omega,
      show (fromBe bytes * 256 + last.toNat) % 256 = last.toNat by omega, ih]
    simp

theorem fromBe_lt : fromBe bytes < 256 ^ bytes.length := by
  induction bytes using List.reverseRecOn with
  | nil => simp [fromBe]
  | append_singleton bytes last ih =>
    have small : last.toNat < 256 := last.toNat_lt
    rw [fromBe_append_singleton, List.length_append, List.length_singleton, pow_succ]
    omega

end Wire
