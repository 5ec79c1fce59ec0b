import Mathlib.Data.Nat.Digits.Lemmas

/-!
# Octets, hex digits and DER

An octet string is a list of bytes. A DER value is a tag, the length of its contents in the
definite form and the contents.

* `bigEndian`, `octetsOf`: numbers as octets, the most significant one first.
* `hexlify`, `unhexlify`; `unhexlify_hexlify`.
* `Der.readLength`, `Der.read`, `Der.readAll`: a reader of the definite form.
* `Der.element`: the value with a given tag, given contents and the shortest length field.
* `Der.read_octets`, `Der.readAll_octets`, `Der.element_minimal`.
-/

namespace MongoTests.Lib

/-! ## Numbers -/

/-- The number that the octets spell. -/
def bigEndian (octets : List UInt8) : ℕ := Nat.ofDigits 256 (octets.reverse.map UInt8.toNat)

/-- The octets of a number, without leading zeros. -/
def octetsOf (n : ℕ) : List UInt8 := (Nat.digits 256 n).reverse.map UInt8.ofNat

@[simp] theorem octetsOf_zero : octetsOf 0 = [] := by rw [octetsOf, Nat.digits_zero]; rfl

theorem octetsOf_of_pos {n : ℕ} (h : 0 < n) :
    octetsOf n = octetsOf (n / 256) ++ [UInt8.ofNat (n % 256)] := by
  rw [octetsOf, Nat.digits_def' (by norm_num) h, List.reverse_cons, List.map_append]
  rfl

theorem bigEndian_octetsOf (n : ℕ) : bigEndian (octetsOf n) = n := by
  have hdigits : (Nat.digits 256 n).map (UInt8.toNat ∘ UInt8.ofNat) = Nat.digits 256 n := by
    refine (List.map_congr_left fun d hd => ?_).trans (List.map_id _)
    have hlt := Nat.digits_lt_base (by norm_num) hd
    rw [Function.comp_apply, UInt8.toNat_ofNat', id, Nat.mod_eq_of_lt hlt]
  rw [bigEndian, octetsOf, ← List.map_reverse, List.reverse_reverse, List.map_map, hdigits,
    Nat.ofDigits_digits]

theorem length_octetsOf (n : ℕ) : (octetsOf n).length = (Nat.digits 256 n).length := by
  rw [octetsOf, List.length_map, List.length_reverse]

theorem length_octetsOf_le_iff {n k : ℕ} : (octetsOf n).length ≤ k ↔ n < 256 ^ k := by
  rw [length_octetsOf, Nat.digits_length_le_iff (by norm_num)]

theorem bigEndian_lt (octets : List UInt8) : bigEndian octets < 256 ^ octets.length := by
  have h := Nat.ofDigits_lt_base_pow_length (b := 256)
    (l := octets.reverse.map UInt8.toNat) (by norm_num) fun x hx => by
      obtain ⟨o, -, rfl⟩ := List.mem_map.mp hx
      exact o.toNat_lt
  rwa [List.length_map, List.length_reverse] at h

theorem length_octetsOf_bigEndian (octets : List UInt8) :
    (octetsOf (bigEndian octets)).length ≤ octets.length :=
  length_octetsOf_le_iff.mpr (bigEndian_lt octets)

/-! ## Hex digits -/

/-- `binascii.hexlify` -/
def hexlify (octets : List UInt8) : List Char :=
  octets.flatMap fun o => [Nat.digitChar (o.toNat / 16), Nat.digitChar (o.toNat % 16)]

def hexValue (c : Char) : Option ℕ :=
  if '0' ≤ c ∧ c ≤ '9' then some (c.toNat - '0'.toNat)
  else if 'a' ≤ c ∧ c ≤ 'f' then some (c.toNat - 'a'.toNat + 10)
  else if 'A' ≤ c ∧ c ≤ 'F' then some (c.toNat - 'A'.toNat + 10)
  else none

/-- Two digits for each octet. -/
def unhexlify : List Char → Option (List UInt8)
  | [] => some []
  | [_] => none
  | c :: d :: s => do
    let high ← hexValue c
    let low ← hexValue d
    let octets ← unhexlify s
    pure (UInt8.ofNat (16 * high + low) :: octets)

theorem hexValue_digitChar {n : ℕ} (h : n < 16) : hexValue (Nat.digitChar n) = some n := by
  interval_cases n <;> rfl

theorem unhexlify_hexlify (octets : List UInt8) : unhexlify (hexlify octets) = some octets := by
  induction octets with
  | nil => rfl
  | cons o octets ih =>
    have hlt := o.toNat_lt
    have hcons : hexlify (o :: octets) =
        Nat.digitChar (o.toNat / 16) :: Nat.digitChar (o.toNat % 16) :: hexlify octets := rfl
    have hsum : 16 * (o.toNat / 16) + o.toNat % 16 = o.toNat := by omega
    rw [hcons, unhexlify, hexValue_digitChar (by omega), hexValue_digitChar (by omega), ih]
    simp only [Option.bind_eq_bind, Option.bind_some, hsum, UInt8.ofNat_toNat]
    rfl

theorem hexlify_append (a b : List UInt8) : hexlify (a ++ b) = hexlify a ++ hexlify b :=
  List.flatMap_append

namespace Der

/-! ## The reader -/

/-- Read a length in the definite form: the octets after it come second. -/
def readLength : List UInt8 → Option (ℕ × List UInt8)
  | [] => none
  | first :: rest =>
    if first.toNat < 0x80 then some (first.toNat, rest)
    else
      -- `0x80` opens the indefinite form, and `0xFF` is reserved.
      let count := first.toNat - 0x80
      if count = 0 ∨ count = 0x7F ∨ rest.length < count then none
      else some (bigEndian (rest.take count), rest.drop count)

structure Element where
  tag : UInt8
  /-- The length field as it was read. -/
  lengthOctets : List UInt8
  contents : List UInt8

/-- Read a value: the octets after it come second. -/
def read : List UInt8 → Option (Element × List UInt8)
  | [] => none
  | tag :: octets =>
    -- Tag numbers from 31 on take more octets.
    if tag.toNat % 32 = 31 then none
    else do
      let (n, rest) ← readLength octets
      if rest.length < n then none
      else some (⟨tag, octets.take (octets.length - rest.length), rest.take n⟩, rest.drop n)

def readMany : ℕ → List UInt8 → Option (List Element)
  | _, [] => some []
  | 0, _ :: _ => none
  | count + 1, o :: octets => do
    let (e, rest) ← read (o :: octets)
    let es ← readMany count rest
    pure (e :: es)

/-- Read values until no octet is left. -/
def readAll (octets : List UInt8) : Option (List Element) := readMany octets.length octets

/-- No other length field for the same contents is shorter. -/
def Element.Minimal (e : Element) : Prop :=
  ∀ octets, readLength octets = some (e.contents.length, []) →
    e.lengthOctets.length ≤ octets.length

/-! ## The shortest length field -/

/-- One octet below 128, and a count of octets followed by them from 128 on. -/
def encodeLength (n : ℕ) : List UInt8 :=
  if n < 0x80 then [UInt8.ofNat n]
  else UInt8.ofNat (0x80 + (octetsOf n).length) :: octetsOf n

def element (tag : UInt8) (contents : List UInt8) : Element :=
  ⟨tag, encodeLength contents.length, contents⟩

def Element.octets (e : Element) : List UInt8 := e.tag :: (e.lengthOctets ++ e.contents)

theorem readLength_encodeLength {n : ℕ} (h : n < 256 ^ 126) (rest : List UInt8) :
    readLength (encodeLength n ++ rest) = some (n, rest) := by
  unfold encodeLength
  split_ifs with hn
  · have hval : (UInt8.ofNat n).toNat = n := by
      rw [UInt8.toNat_ofNat', Nat.mod_eq_of_lt (by omega)]
    rw [List.singleton_append, readLength, hval, if_pos hn]
  · have hle : (octetsOf n).length ≤ 126 := length_octetsOf_le_iff.mpr h
    have hpos : 0 < (octetsOf n).length := by
      by_contra hzero
      have hlt : n < 256 ^ 0 := length_octetsOf_le_iff.mp (by omega)
      omega
    have hval : (UInt8.ofNat (0x80 + (octetsOf n).length)).toNat = 0x80 + (octetsOf n).length := by
      rw [UInt8.toNat_ofNat', Nat.mod_eq_of_lt (by omega)]
    have hroom : ¬((octetsOf n).length = 0 ∨ (octetsOf n).length = 0x7F ∨
        (octetsOf n ++ rest).length < (octetsOf n).length) := by
      rw [List.length_append]
      omega
    rw [List.cons_append, readLength, hval, if_neg (by omega), Nat.add_sub_cancel_left]
    simp only [if_neg hroom, List.take_left, List.drop_left, bigEndian_octetsOf]

theorem encodeLength_length_le {n : ℕ} {octets : List UInt8}
    (h : readLength octets = some (n, [])) : (encodeLength n).length ≤ octets.length := by
  cases octets with
  | nil => cases h
  | cons first rest =>
    rw [readLength] at h
    split_ifs at h with hfirst
    · rw [encodeLength, if_pos (by cases h; exact hfirst)]
      exact Nat.succ_le_succ (Nat.zero_le _)
    · -- In the long form the count octet is there in both cases.
      dsimp only at h
      split_ifs at h with hcount
      obtain ⟨rfl, -⟩ := Prod.mk.inj (Option.some.inj h)
      have hlen := length_octetsOf_bigEndian (rest.take (first.toNat - 0x80))
      rw [List.length_take] at hlen
      unfold encodeLength
      split_ifs
      · exact Nat.succ_le_succ (Nat.zero_le _)
      · rw [List.length_cons, List.length_cons]
        omega

theorem element_minimal (tag : UInt8) (contents : List UInt8) :
    (element tag contents).Minimal := fun _ h => encodeLength_length_le h

/-! ## Round trips -/

/-- The values that the reader takes back from their octets. -/
structure Element.Plain (e : Element) : Prop where
  tag : e.tag.toNat % 32 ≠ 31
  short : e.contents.length < 256 ^ 126
  field : e.lengthOctets = encodeLength e.contents.length

theorem element_plain {tag : UInt8} {contents : List UInt8} (htag : tag.toNat % 32 ≠ 31)
    (hshort : contents.length < 256 ^ 126) : (element tag contents).Plain := ⟨htag, hshort, rfl⟩

theorem read_octets {e : Element} (h : e.Plain) (rest : List UInt8) :
    read (e.octets ++ rest) = some (e, rest) := by
  obtain ⟨tag, field, contents⟩ := e
  obtain ⟨htag, hshort, hfield⟩ := h
  dsimp only at htag hshort hfield
  subst hfield
  have hlength := readLength_encodeLength hshort (contents ++ rest)
  have hroom : ¬(contents ++ rest).length < contents.length := by
    rw [List.length_append]
    omega
  have hfield : (encodeLength contents.length ++ (contents ++ rest)).length -
      (contents ++ rest).length = (encodeLength contents.length).length := by
    rw [List.length_append]
    omega
  simp only [Element.octets, List.cons_append, List.append_assoc, read, if_neg htag, hlength,
    Option.bind_eq_bind, Option.bind_some, if_neg hroom, hfield, List.take_left, List.drop_left]

theorem readMany_octets {es : List Element} (h : ∀ e ∈ es, e.Plain) {count : ℕ}
    (hcount : es.length ≤ count) : readMany count (es.flatMap Element.octets) = some es := by
  induction es generalizing count with
  | nil => cases count <;> rfl
  | cons e es ih =>
    obtain ⟨count, rfl⟩ : ∃ m, count = m + 1 := ⟨count - 1, by rw [List.length_cons] at hcount; omega⟩
    have hread := read_octets (h e List.mem_cons_self) (es.flatMap Element.octets)
    have hrest := ih (fun e he => h e (List.mem_cons_of_mem _ he)) (Nat.le_of_succ_le_succ hcount)
    rw [List.flatMap_cons]
    rw [Element.octets, List.cons_append] at hread ⊢
    rw [readMany, hread]
    simp only [Option.bind_eq_bind, Option.bind_some, hrest]
    rfl

theorem length_le_flatMap_octets (es : List Element) :
    es.length ≤ (es.flatMap Element.octets).length := by
  induction es with
  | nil => exact le_rfl
  | cons e es ih =>
    rw [List.flatMap_cons, List.length_append, Element.octets, List.length_cons, List.length_cons]
    omega

theorem readAll_octets {es : List Element} (h : ∀ e ∈ es, e.Plain) :
    readAll (es.flatMap Element.octets) = some es :=
  readMany_octets h (length_le_flatMap_octets es)

theorem length_contents_le_octets (e : Element) : e.contents.length ≤ e.octets.length := by
  rw [Element.octets, List.length_cons, List.length_append]
  omega

end Der

end MongoTests.Lib
