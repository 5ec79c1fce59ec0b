import MongoTests.Lib.Checked
import MongoTests.Lib.Der
import MongoTests.Lib.Dict

/-!
# The role extension of a test certificate

`mkcert.py` writes the roles of a certificate as a DER value: a set of sequences of two strings.

* `toDerVarint`, `toDerUtf8String`, `toDerSequencePair`, `setMongoRolesExtension`: the code.
* `toDerVarint_of_lt`: a length below `2 ^ 64` is the shortest length field.
* `rolesElement`: the value that stands for a list of pairs; `DecodesTo`: what a reader takes from
  octets.
* **`mongoRoles_decode`**: the extension decodes to the roles.
-/

namespace MongoTests.Ssl

open MongoTests.Lib Der

/-! ## The code -/

/-- The loop of `to_der_varint`, with `room` octets left of the eight: what is left of the value,
and `ret`. -/
def varintLoop : ℕ → ℕ → List UInt8 → ℕ × List UInt8
  | 0, val, ret => (val, ret)
  | room + 1, val, ret =>
    if 0 < val then varintLoop room (val >>> 8) (UInt8.ofNat (val &&& 0xFF) :: ret) else (val, ret)

def toDerVarint (val : ℤ) : Except String (List UInt8) :=
  if val < 0 then .error "Negative values nor permitted in DER payload"
  else if val < 0x80 then .ok [UInt8.ofNat val.toNat]
  else
    let (val, ret) := varintLoop 8 val.toNat []
    if 0 < val then .error "Length is too large to represent in 64bits"
    else .ok (UInt8.ofNat (0x80 + ret.length) :: ret)

/-- `str.encode('utf-8')` -/
def utf8 (s : String) : List UInt8 := s.toUTF8.data.toList

def toDerUtf8String (val : String) : Except String (List UInt8) := do
  let utf8Val := utf8 val
  let length ← toDerVarint utf8Val.length
  return [0x0C] ++ length ++ utf8Val

def toDerSequencePair (name value : String) : Except String (List UInt8) := do
  let binName ← toDerUtf8String name
  let binValue ← toDerUtf8String value
  let length ← toDerVarint (binName.length + binValue.length)
  return [0x30] ++ length ++ binName ++ binValue

/-- An `OpenSSL.crypto.X509Extension`. -/
structure X509Extension where
  typeName : String
  critical : Bool
  value : List Char

/-- One round of the loop over the roles. -/
def addRole (pair : List UInt8) (role : Dict String String) : Except String (List UInt8) :=
  match role.get "role", role.get "db" with
  | some name, some db =>
    if role.items.length ≠ 2 then .error "mongoRoles must consist of a series of role/db pairs"
    else do return pair ++ (← toDerSequencePair name db)
  | _, _ => .error "mongoRoles must consist of a series of role/db pairs"

/-- `roles` is empty for a certificate without `mongoRoles`. -/
def setMongoRolesExtension (exts : List X509Extension) (roles : List (Dict String String)) :
    Except String (List X509Extension) :=
  if roles = [] then .ok exts
  else do
    let pair ← roles.foldlM addRole []
    let length ← toDerVarint pair.length
    let value := "DER:31".toList ++ hexlify length ++ hexlify pair
    return exts ++ [⟨"1.3.6.1.4.1.34601.2.1.1", false, value⟩]

/-! ## Lengths -/

theorem varintLoop_of_lt {room val : ℕ} (ret : List UInt8) (h : val < 256 ^ room) :
    varintLoop room val ret = (0, octetsOf val ++ ret) := by
  induction room generalizing val ret with
  | zero =>
    obtain rfl : val = 0 := by omega
    rw [varintLoop, octetsOf_zero, List.nil_append]
  | succ room ih =>
    rw [varintLoop]
    split_ifs with hpos
    · have hdiv : val / 256 < 256 ^ room := by
        rw [Nat.div_lt_iff_lt_mul (by norm_num), ← Nat.pow_succ]
        exact h
      have hmod : val &&& 0xFF = val % 256 := Nat.and_two_pow_sub_one_eq_mod val 8
      rw [Nat.shiftRight_eq_div_pow, hmod, ih _ hdiv, octetsOf_of_pos hpos, List.append_assoc]
      rfl
    · obtain rfl : val = 0 := by omega
      rw [octetsOf_zero, List.nil_append]

/-- The code of a length, where the standard has at most eight octets. -/
theorem toDerVarint_of_lt {n : ℕ} (h : n < 2 ^ 64) : toDerVarint n = .ok (encodeLength n) := by
  rw [toDerVarint, if_neg (by omega), encodeLength]
  by_cases hn : n < 0x80
  · rw [if_pos (by omega), if_pos hn, Int.toNat_natCast]
  · have hlt : n < 256 ^ 8 := h.trans_le (by norm_num)
    have hloop := varintLoop_of_lt [] hlt
    rw [List.append_nil] at hloop
    rw [if_neg (by omega), if_neg hn, Int.toNat_natCast, hloop]
    rfl

/-! ## The value of the roles -/

def textElement (s : String) : Element := element 0x0C (utf8 s)

def pairElement (p : String × String) : Element :=
  element 0x30 ((textElement p.1).octets ++ (textElement p.2).octets)

/-- The set of the pairs, in order. -/
def rolesElement (pairs : List (String × String)) : Element :=
  element 0x31 ((pairs.map pairElement).flatMap Element.octets)

theorem toDerUtf8String_of_lt {s : String} (h : (utf8 s).length < 2 ^ 64) :
    toDerUtf8String s = .ok (textElement s).octets := by
  rw [toDerUtf8String, toDerVarint_of_lt h]
  rfl

theorem toDerSequencePair_of_lt {p : String × String} (h : (pairElement p).contents.length < 2 ^ 64) :
    toDerSequencePair p.1 p.2 = .ok (pairElement p).octets := by
  have hlength : (textElement p.1).octets.length + (textElement p.2).octets.length < 2 ^ 64 := by
    rw [← List.length_append]
    exact h
  have hname := length_contents_le_octets (textElement p.1)
  have hvalue := length_contents_le_octets (textElement p.2)
  have hvarint := toDerVarint_of_lt hlength
  rw [Nat.cast_add] at hvarint
  rw [toDerSequencePair, toDerUtf8String_of_lt (hname.trans_lt (by omega)),
    toDerUtf8String_of_lt (hvalue.trans_lt (by omega))]
  simp only [bind, Except.bind, hvarint]
  rw [pairElement, element, Element.octets, List.length_append, List.append_assoc, List.append_assoc]
  rfl

/-- The dictionary of a role. -/
structure Describes (role : Dict String String) (p : String × String) : Prop where
  size : role.items.length = 2
  name : role.get "role" = some p.1
  db : role.get "db" = some p.2

theorem addRole_of_describes {role : Dict String String} {p : String × String}
    (h : Describes role p) (hlt : (pairElement p).contents.length < 2 ^ 64) (pair : List UInt8) :
    addRole pair role = .ok (pair ++ (pairElement p).octets) := by
  rw [addRole, h.name, h.db]
  simp only [h.size, ne_eq, not_true_eq_false, if_false, toDerSequencePair_of_lt hlt]
  rfl

theorem foldlM_addRole {roles : List (Dict String String)} {pairs : List (String × String)}
    (h : List.Forall₂ Describes roles pairs) (pair : List UInt8)
    (hlt : ((pairs.map pairElement).flatMap Element.octets).length < 2 ^ 64) :
    roles.foldlM addRole pair = .ok (pair ++ (pairs.map pairElement).flatMap Element.octets) := by
  induction h generalizing pair with
  | nil =>
    rw [List.map_nil, List.flatMap_nil, List.append_nil]
    rfl
  | @cons role p roles pairs hp _ ih =>
    rw [List.map_cons, List.flatMap_cons] at hlt ⊢
    rw [List.length_append] at hlt
    have hcontents := length_contents_le_octets (pairElement p)
    rw [List.foldlM_cons, addRole_of_describes hp (hcontents.trans_lt (by omega))]
    show roles.foldlM addRole (pair ++ (pairElement p).octets) = _
    rw [ih _ (by omega), List.append_assoc]

theorem setMongoRolesExtension_of_lt {roles : List (Dict String String)}
    {pairs : List (String × String)} (h : List.Forall₂ Describes roles pairs) (hne : roles ≠ [])
    (hlt : (rolesElement pairs).octets.length < 2 ^ 64) (exts : List X509Extension) :
    setMongoRolesExtension exts roles = .ok (exts ++ [⟨"1.3.6.1.4.1.34601.2.1.1", false,
      "DER:".toList ++ hexlify (rolesElement pairs).octets⟩]) := by
  have hcontents := (length_contents_le_octets (rolesElement pairs)).trans_lt hlt
  have hvarint : toDerVarint ((pairs.map pairElement).flatMap Element.octets).length =
      .ok (encodeLength (rolesElement pairs).contents.length) := toDerVarint_of_lt hcontents
  have hvalue : "DER:31".toList ++ hexlify (encodeLength (rolesElement pairs).contents.length) ++
      hexlify (rolesElement pairs).contents =
        "DER:".toList ++ hexlify (rolesElement pairs).octets := by
    have htag : "DER:31".toList = "DER:".toList ++ hexlify [0x31] := by decide
    rw [htag, List.append_assoc, List.append_assoc, ← hexlify_append, ← hexlify_append]
    rfl
  rw [setMongoRolesExtension, if_neg hne, foldlM_addRole h [] hcontents, ← hvalue]
  simp only [bind, Except.bind, List.nil_append, hvarint]
  rfl

/-! ## What a reader takes from the value -/

/-- A value that is a text. -/
structure IsText (e : Element) (s : String) : Prop where
  tag : e.tag = 0x0C
  minimal : e.Minimal
  contents : String.fromUTF8? ⟨e.contents.toArray⟩ = some s

/-- A value that is a sequence of two texts. -/
structure IsPair (e : Element) (p : String × String) : Prop where
  tag : e.tag = 0x30
  minimal : e.Minimal
  contents : ∃ a b, readAll e.contents = some [a, b] ∧ IsText a p.1 ∧ IsText b p.2

/-- The octets are one set, and its contents are the pairs. -/
def DecodesTo (octets : List UInt8) (pairs : List (String × String)) : Prop :=
  ∃ e, read octets = some (e, []) ∧ e.tag = 0x31 ∧ e.Minimal ∧
    ∃ es, readAll e.contents = some es ∧ List.Forall₂ IsPair es pairs

theorem isText_textElement (s : String) : IsText (textElement s) s := by
  refine ⟨rfl, element_minimal _ _, ?_⟩
  have hvalid : ByteArray.IsValidUTF8 (ByteArray.mk (utf8 s).toArray) := by
    rw [utf8, Array.toArray_toList]
    exact s.isValidUTF8
  show String.fromUTF8? (ByteArray.mk (utf8 s).toArray) = some s
  rw [String.fromUTF8?, dif_pos hvalid]
  exact congrArg some (String.toByteArray_inj.mp rfl)

theorem isPair_pairElement {p : String × String} (h : (pairElement p).contents.length < 2 ^ 64) :
    IsPair (pairElement p) p := by
  have hlength : (textElement p.1).octets.length + (textElement p.2).octets.length < 2 ^ 64 := by
    rw [← List.length_append]
    exact h
  have hplain : ∀ e ∈ [textElement p.1, textElement p.2], e.Plain := by
    intro e he
    have hshort : e.octets.length < 2 ^ 64 := by
      rcases List.mem_pair.mp he with rfl | rfl <;> omega
    have hcontents : e.contents.length < 256 ^ 126 :=
      (length_contents_le_octets e).trans_lt (hshort.trans_le (by norm_num))
    rcases List.mem_pair.mp he with rfl | rfl
    · exact element_plain (by decide) hcontents
    · exact element_plain (by decide) hcontents
  have hread := readAll_octets hplain
  rw [List.flatMap_cons, List.flatMap_singleton] at hread
  exact ⟨rfl, element_minimal _ _, _, _, hread, isText_textElement _, isText_textElement _⟩

theorem decodesTo_rolesElement {pairs : List (String × String)}
    (hlt : (rolesElement pairs).octets.length < 2 ^ 64) :
    DecodesTo (rolesElement pairs).octets pairs := by
  have hcontents := (length_contents_le_octets (rolesElement pairs)).trans_lt hlt
  have hplain : (rolesElement pairs).Plain :=
    element_plain (by decide) (hcontents.trans_le (by norm_num))
  have hread := read_octets hplain []
  rw [List.append_nil] at hread
  -- A pair is a part of the contents of the set.
  have hpair : ∀ p ∈ pairs, (pairElement p).contents.length < 2 ^ 64 := by
    intro p hp
    have hsub := (List.sublist_flatten_of_mem
      (List.mem_map_of_mem (f := Element.octets) (List.mem_map_of_mem (f := pairElement) hp))).length_le
    exact (length_contents_le_octets _).trans_lt (hsub.trans_lt hcontents)
  refine ⟨_, hread, rfl, element_minimal _ _, pairs.map pairElement, readAll_octets ?_, ?_⟩
  · intro e he
    obtain ⟨p, hp, rfl⟩ := List.mem_map.mp he
    exact element_plain (by decide) ((hpair p hp).trans_le (by norm_num))
  · rw [List.forall₂_map_left_iff, List.forall₂_same]
    exact fun p hp => isPair_pairElement (hpair p hp)

/-- **The role extension decodes to the roles**, in order and with the shortest length fields. -/
theorem mongoRoles_decode {roles : List (Dict String String)} {pairs : List (String × String)}
    (h : List.Forall₂ Describes roles pairs) (hne : roles ≠ [])
    (hlt : (rolesElement pairs).octets.length < 2 ^ 64) (exts : List X509Extension) :
    ∃ e hex octets, setMongoRolesExtension exts roles = .ok (exts ++ [e]) ∧
      e.value = "DER:".toList ++ hex ∧ unhexlify hex = some octets ∧ DecodesTo octets pairs :=
  ⟨_, _, _, setMongoRolesExtension_of_lt h hne hlt exts, rfl, unhexlify_hexlify _,
    decodesTo_rolesElement hlt⟩

/-- The role `{role: backup, db: admin}`. -/
def backupRole : Dict String String := (Dict.empty.set "role" "backup").set "db" "admin"

theorem describes_backupRole : Describes backupRole ("backup", "admin") where
  size := by decide
  name := by decide
  db := by decide

theorem mongoRoles_decode_backup :
    ∃ e hex octets, setMongoRolesExtension [] [backupRole] = .ok ([] ++ [e]) ∧
      e.value = "DER:".toList ++ hex ∧ unhexlify hex = some octets ∧
      DecodesTo octets [("backup", "admin")] :=
  mongoRoles_decode (.cons describes_backupRole .nil) (List.cons_ne_nil _ _) (by decide) []

end MongoTests.Ssl
