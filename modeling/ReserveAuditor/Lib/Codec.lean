import Mathlib.Tactic

/-! Codecs that delimit themselves: a decoder reads one value off the front of a byte
string and hands back the rest. -/
namespace Wire

structure Codec (α : Type) where
  encode : α → List UInt8
  decode : List UInt8 → Option (α × List UInt8)
  decode_encode : ∀ a rest, decode (encode a ++ rest) = some (a,rest)

/-! ### Numbers of a fixed width, low digits first -/

def encodeDigits : ℕ → ℕ → List UInt8
  | 0, _ => []
  | k+1, n => UInt8.ofNat (n%256) :: encodeDigits k (n/256)

def decodeDigits : ℕ → List UInt8 → Option (ℕ × List UInt8)
  | 0, bytes => some (0,bytes)
  | _+1, [] => none
  | k+1, b :: bytes => (decodeDigits k bytes).map fun p => (b.toNat+256*p.1,p.2)

theorem decode_encodeDigits (k n : ℕ) (hn : n < 256^k) (rest : List UInt8) :
    decodeDigits k (encodeDigits k n ++ rest) = some (n,rest) := by
  induction k generalizing n with
  | zero =>
    have hz : n = 0 := by simpa using hn
    rw [hz]
    rfl
  | succ k ih =>
    -- the lowest digit is read first, the quotient is left to the rest
    have hdiv : n/256 < 256^k := Nat.div_lt_of_lt_mul (by rwa [pow_succ'] at hn)
    have hlow : (UInt8.ofNat (n%256)).toNat = n%256 :=
      UInt8.toNat_ofNat_of_lt' (Nat.mod_lt n (by norm_num))
    simp only [encodeDigits, List.cons_append, decodeDigits, ih _ hdiv, Option.map_some, hlow,
      Nat.mod_add_div]

/-! ### Lists, each member behind a marker -/

def encodeList {α : Type} (c : Codec α) : List α → List UInt8
  | [] => [0]
  | a :: as => 1 :: (c.encode a ++ encodeList c as)

/-- The first argument bounds the number of members that are read. -/
def decodeList {α : Type} (c : Codec α) : ℕ → List UInt8 → Option (List α × List UInt8)
  | 0, _ => none
  | _+1, [] => none
  | n+1, b :: bytes =>
    if b = 0 then some ([],bytes)
    else do
      let (a,bytes) ← c.decode bytes
      let (as,bytes) ← decodeList c n bytes
      pure (a :: as,bytes)

theorem length_lt_encodeList {α : Type} (c : Codec α) (as : List α) :
    as.length < (encodeList c as).length := by
  induction as with
  | nil => simp [encodeList]
  | cons a as ih =>
    simp only [encodeList, List.length_cons, List.length_append]
    omega

theorem decode_encodeList {α : Type} (c : Codec α) (as : List α) (n : ℕ) (hn : as.length < n)
    (rest : List UInt8) : decodeList c n (encodeList c as ++ rest) = some (as,rest) := by
  induction as generalizing n with
  | nil =>
    obtain ⟨n,rfl⟩ := Nat.exists_eq_succ_of_ne_zero (Nat.ne_of_gt hn)
    simp [encodeList, decodeList]
  | cons a as ih =>
    obtain ⟨n,rfl⟩ := Nat.exists_eq_succ_of_ne_zero (Nat.ne_of_gt (Nat.zero_lt_of_lt hn))
    have hn' : as.length < n := by simpa using hn
    simp [encodeList, decodeList, c.decode_encode, ih n hn']

namespace Codec
variable {α β : Type}

def byte : Codec UInt8 where
  encode b := [b]
  decode
    | [] => none
    | b :: bytes => some (b,bytes)
  decode_encode _ _ := rfl

def word : Codec UInt64 where
  encode w := encodeDigits 8 w.toNat
  decode bytes := (decodeDigits 8 bytes).map fun p => (UInt64.ofNat p.1,p.2)
  decode_encode w rest := by
    simp only [decode_encodeDigits 8 w.toNat w.toNat_lt rest, Option.map_some, UInt64.ofNat_toNat]

def pair (c : Codec α) (d : Codec β) : Codec (α × β) where
  encode p := c.encode p.1 ++ d.encode p.2
  decode bytes := do
    let (a,bytes) ← c.decode bytes
    let (b,bytes) ← d.decode bytes
    pure ((a,b),bytes)
  decode_encode p rest := by
    simp [List.append_assoc, c.decode_encode, d.decode_encode]

def list (c : Codec α) : Codec (List α) where
  encode := encodeList c
  decode bytes := decodeList c bytes.length bytes
  decode_encode as rest := by
    refine decode_encodeList c as _ ?_ rest
    rw [List.length_append]
    exact (length_lt_encodeList c as).trans_le (Nat.le_add_right _ _)

/-- A value that another type stands for. -/
def map (c : Codec α) (e : β ≃ α) : Codec β where
  encode b := c.encode (e b)
  decode bytes := (c.decode bytes).map fun p => (e.symm p.1,p.2)
  decode_encode b rest := by
    simp only [c.decode_encode, Option.map_some, Equiv.symm_apply_apply]

/-- Read a value that takes up the whole byte string. -/
def read (c : Codec α) (bytes : List UInt8) : Option α :=
  match c.decode bytes with
  | some (a,[]) => some a
  | _ => none

theorem read_encode (c : Codec α) (a : α) : c.read (c.encode a) = some a := by
  have h := c.decode_encode a []
  rw [List.append_nil] at h
  simp only [read, h]

end Codec
end Wire
