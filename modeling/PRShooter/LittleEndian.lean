import Mathlib.Data.List.Basic
import Mathlib.Algebra.Order.Ring.Nat
import Mathlib.Tactic.Ring

/-!
# Little-endian fields of byte strings

Fixed-width fields of a byte string, and readers that take such fields off its front. A reader is
a partial function from the bytes left to a value and the bytes left after it; `Reads` says that
it takes exactly a given encoding off the front, whatever follows.
-/

namespace LittleEndian

/-- The `n` low bytes of `v`, the lowest first. -/
def bytes : ℕ → ℕ → List UInt8
  | 0, _ => []
  | n + 1, v => UInt8.ofNat v :: bytes n (v / 256)

/-- The number a byte string spells, the lowest byte first. -/
def value : List UInt8 → ℕ
  | [] => 0
  | b :: bs => b.toNat + 256 * value bs

@[simp] theorem length_bytes (n v : ℕ) : (bytes n v).length = n := by
  induction n generalizing v with
  | zero => rfl
  | succ n ih => simp [bytes, ih]

theorem value_bytes (n v : ℕ) : value (bytes n v) = v % 256 ^ n := by
  induction n generalizing v with
  | zero => simp [bytes, value, Nat.mod_one]
  | succ n ih =>
    have hb : (UInt8.ofNat v).toNat = v % 256 := by simp
    unfold bytes
    rw [value, ih, hb, pow_succ', Nat.mod_mul]

theorem value_bytes_of_lt {n v : ℕ} (h : v < 256 ^ n) : value (bytes n v) = v := by
  rw [value_bytes, Nat.mod_eq_of_lt h]

theorem value_lt (bs : List UInt8) : value bs < 256 ^ bs.length := by
  induction bs with
  | nil => simp [value]
  | cons b bs ih =>
    have hb : b.toNat < 256 := b.toNat_lt
    unfold value
    rw [List.length_cons, pow_succ']
    omega

/-- Every byte string is the one its number is written as. -/
theorem bytes_value (bs : List UInt8) : bytes bs.length (value bs) = bs := by
  induction bs with
  | nil => rfl
  | cons b bs ih =>
    have hb : b.toNat < 256 := b.toNat_lt
    have hlow : UInt8.ofNat (b.toNat + 256 * value bs) = b := by
      apply UInt8.toNat.inj
      rw [UInt8.toNat_ofNat']
      omega
    have hhigh : (b.toNat + 256 * value bs) / 256 = value bs := by omega
    unfold value
    rw [List.length_cons, bytes, hlow, hhigh, ih]

/-! ## Readers -/

/-- A reader of the front of a byte string; `none` is an exception. -/
abbrev Reader := StateT (List UInt8) Option

/-- Up to `n` bytes off the front: fewer at the end of the string. -/
def take (n : ℕ) : Reader (List UInt8) := fun bs => some (bs.take n, bs.drop n)

variable {α β : Type}

/-- The same reader `n` times. -/
def Reader.replicate (r : Reader α) : ℕ → Reader (List α)
  | 0 => return []
  | n + 1 => do
    let a ← r
    let as ← r.replicate n
    return a :: as

/-- The reader takes exactly `enc` off the front and returns `a`. -/
def Reads (r : Reader α) (enc : List UInt8) (a : α) : Prop :=
  ∀ rest, r.run (enc ++ rest) = some (a, rest)

theorem Reads.pure (a : α) : Reads (Pure.pure a) [] a := fun _ => rfl

/-- One reader after another reads one encoding after the other. -/
theorem Reads.bind {r : Reader α} {f : α → Reader β} {enc enc' : List UInt8} {a : α} {b : β}
    (h : Reads r enc a) (h' : Reads (f a) enc' b) : Reads (r >>= f) (enc ++ enc') b := by
  intro rest
  rw [StateT.run_bind, List.append_assoc, h (enc' ++ rest)]
  exact h' rest

/-- The last reader of a sequence, and the value made from what was read. -/
theorem Reads.map {r : Reader α} {f : α → β} {enc : List UInt8} {a : α} (h : Reads r enc a) :
    Reads (r >>= fun a => Pure.pure (f a)) enc (f a) := by
  intro rest
  rw [StateT.run_bind, h rest]
  rfl

/-- A list of encodings one after the other is read back element by element. -/
theorem Reads.replicate {r : Reader β} (enc : α → List UInt8) (dec : α → β) :
    ∀ l : List α, (∀ a ∈ l, Reads r (enc a) (dec a)) →
      Reads (r.replicate l.length) (l.flatMap enc) (l.map dec)
  | [], _ => Reads.pure []
  | a :: l, h => by
    have hl := Reads.replicate enc dec l fun b hb => h b (by simp [hb])
    exact (h a (by simp)).bind hl.map

theorem Reads.run_bind {r : Reader α} {f : α → Reader β} {enc : List UInt8} {a : α}
    (h : Reads r enc a) (rest : List UInt8) : (r >>= f).run (enc ++ rest) = (f a).run rest := by
  rw [StateT.run_bind, h rest]
  rfl

theorem reads_take {n : ℕ} {enc : List UInt8} (h : enc.length = n) : Reads (take n) enc enc := by
  intro rest
  subst h
  simp [take, StateT.run]

/-- The reader takes `n` bytes off the front, whatever they are. -/
def Takes (r : Reader α) (n : ℕ) : Prop :=
  ∀ bs : List UInt8, n ≤ bs.length → ∃ a, r.run bs = some (a, bs.drop n)

theorem Takes.pure (a : α) : Takes (Pure.pure a) 0 := fun _ _ => ⟨a, rfl⟩

theorem Takes.bind {r : Reader α} {f : α → Reader β} {m n : ℕ} (h : Takes r m)
    (h' : ∀ a, Takes (f a) n) : Takes (r >>= f) (m + n) := by
  intro bs hbs
  obtain ⟨a, ha⟩ := h bs (by omega)
  obtain ⟨b, hb⟩ := h' a (bs.drop m) (by rw [List.length_drop]; omega)
  refine ⟨b, ?_⟩
  rw [StateT.run_bind, ha]
  exact hb.trans (by rw [List.drop_drop])

theorem Takes.map {r : Reader α} {n : ℕ} (h : Takes r n) (f : α → β) :
    Takes (r >>= fun a => Pure.pure (f a)) n := h.bind fun a => Takes.pure (f a)

theorem Takes.replicate {r : Reader α} {n : ℕ} (h : Takes r n) :
    ∀ k, Takes (r.replicate k) (n * k)
  | 0 => Takes.pure []
  | k + 1 => by
    have hlen : n * (k + 1) = n + n * k := by ring
    rw [hlen]
    exact h.bind fun a => (Takes.replicate h k).map (a :: ·)

theorem takes_take (n : ℕ) : Takes (take n) n := fun _ _ => ⟨_, rfl⟩

/-! ## How long a string a reader accepts -/

/-- The reader raises exactly on strings shorter than `need`, and takes `size` bytes off the others,
or all there are. -/
structure Consumes (r : Reader α) (need size : ℕ) : Prop where
  isSome_iff : ∀ bs : List UInt8, (r.run bs).isSome ↔ need ≤ bs.length
  rest : ∀ (bs rest : List UInt8) (a : α), r.run bs = some (a, rest) → rest = bs.drop size

theorem Consumes.pure (a : α) : Consumes (Pure.pure a) 0 0 := by
  refine ⟨fun bs => iff_of_true rfl (Nat.zero_le _), fun bs rest b h => ?_⟩
  exact (Prod.mk.inj (Option.some.inj h)).2.symm

theorem consumes_take (n : ℕ) : Consumes (take n) 0 n := by
  refine ⟨fun bs => iff_of_true rfl (Nat.zero_le _), fun bs rest b h => ?_⟩
  exact (Prod.mk.inj (Option.some.inj h)).2.symm

/-- What two readers need together: the second one finds what the first has left. -/
def needBoth (need size need' : ℕ) : ℕ :=
  if need' = 0 ∨ size + need' ≤ need then need else size + need'

theorem Consumes.bind {r : Reader α} {f : α → Reader β} {need size need' size' : ℕ}
    (h : Consumes r need size) (h' : ∀ a, Consumes (f a) need' size') :
    Consumes (r >>= f) (needBoth need size need') (size + size') := by
  constructor
  · intro bs
    have hboth : needBoth need size need' ≤ bs.length ↔
        need ≤ bs.length ∧ need' ≤ bs.length - size := by
      unfold needBoth
      split_ifs with hzero <;> omega
    rw [hboth, ← h.isSome_iff bs, StateT.run_bind]
    cases hr : r.run bs with
    | none => simp
    | some ar =>
      obtain ⟨a, rest⟩ := ar
      obtain rfl := h.rest bs rest a hr
      have hnext := (h' a).isSome_iff (bs.drop size)
      rw [List.length_drop] at hnext
      simpa using hnext
  · intro bs rest b hrun
    rw [StateT.run_bind] at hrun
    obtain ⟨⟨a, middle⟩, ha, hb⟩ := Option.bind_eq_some_iff.mp hrun
    rw [(h' a).rest middle rest b hb, h.rest bs middle a ha, List.drop_drop]

/-- A value made from what has been read. -/
theorem Consumes.map {r : Reader α} {need size : ℕ} (h : Consumes r need size) (f : α → β) :
    Consumes (r >>= fun a => Pure.pure (f a)) need size :=
  h.bind fun a => Consumes.pure (f a)

/-- Of a sequence of records only the last one may be cut off behind what it needs. -/
theorem Consumes.replicate {r : Reader α} {need size : ℕ} (h : Consumes r need size)
    (hpos : 0 < need) (hle : need ≤ size) :
    ∀ k, Consumes (r.replicate k) (k * size - (size - need)) (k * size)
  | 0 => by
    rw [Nat.zero_mul, Nat.zero_sub]
    exact Consumes.pure []
  | k + 1 => by
    have hall := h.bind fun a : α => (Consumes.replicate h hpos hle k).map (a :: ·)
    have hneed : needBoth need size (k * size - (size - need)) = (k + 1) * size - (size - need) := by
      unfold needBoth
      cases k with
      | zero => simp; omega
      | succ k =>
        rw [Nat.succ_mul (k + 1), Nat.succ_mul, if_neg (by omega)]
        omega
    rw [← hneed, Nat.succ_mul, Nat.add_comm (k * size) size]
    exact hall

end LittleEndian
