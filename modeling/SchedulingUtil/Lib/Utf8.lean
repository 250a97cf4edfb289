import Mathlib.Data.List.Infix

/-! # UTF-8 text as lists of bytes

Byte lists instead of byte arrays, so that a cut file is a list prefix. The
coding itself is the one of the standard library; what is added is that it is
a prefix code: bytes that end in the middle of a character do not decode, and
bytes that do decode stand for a prefix of the text. -/
namespace SchedulingUtil.Lib.Utf8

abbrev Bytes := List UInt8

def encode (cs : List Char) : Bytes := cs.flatMap String.utf8EncodeChar

def decode (bs : Bytes) : Option (List Char) := bs.toByteArray.utf8Decode?.map Array.toList

theorem encode_nil : encode [] = [] := rfl

theorem encode_cons (c : Char) (cs : List Char) :
    encode (c :: cs) = String.utf8EncodeChar c ++ encode cs := rfl

theorem encode_append (cs ds : List Char) : encode (cs ++ ds) = encode cs ++ encode ds :=
  List.flatMap_append

theorem toByteArray_encode (cs : List Char) : (encode cs).toByteArray = cs.utf8Encode := rfl

theorem decode_encode (cs : List Char) : decode (encode cs) = some cs := by
  simp [decode, toByteArray_encode]

theorem toByteArray_injective {as bs : Bytes} (h : as.toByteArray = bs.toByteArray) : as = bs := by
  have hd := congrArg (fun b : ByteArray => b.data.toList) h
  simpa using hd

/-- Only encodings decode. -/
theorem decode_eq_some {bs : Bytes} {cs : List Char} (h : decode bs = some cs) :
    bs = encode cs := by
  obtain ⟨a, ha, rfl⟩ := Option.map_eq_some_iff.mp h
  have hs : bs.toByteArray.utf8Decode?.isSome := by simp [ha]
  obtain ⟨m, hm⟩ := ByteArray.isSome_utf8Decode?_iff.mp hs
  rw [hm, List.utf8Decode?_utf8Encode] at ha
  cases ha
  exact toByteArray_injective (hm.trans (toByteArray_encode m).symm)

theorem utf8EncodeChar_cancel {c d : Char} {as bs : Bytes}
    (h : String.utf8EncodeChar c ++ as = String.utf8EncodeChar d ++ bs) : c = d := by
  have hc := ByteArray.utf8DecodeChar?_utf8EncodeChar_append (b := as.toByteArray) (c := c)
  have hd := ByteArray.utf8DecodeChar?_utf8EncodeChar_append (b := bs.toByteArray) (c := d)
  rw [← List.toByteArray_append, h, List.toByteArray_append, hd] at hc
  exact (Option.some.inj hc).symm

/-- An encoding that starts another one encodes a prefix of the other text. -/
theorem prefix_of_encode : ∀ {cs ds : List Char}, encode cs <+: encode ds → cs <+: ds
  | [], ds, _ => List.nil_prefix
  | c :: cs, [], h => by
    obtain ⟨t, ht⟩ := h
    simp [encode_cons, encode_nil] at ht
  | c :: cs, d :: ds, h => by
    obtain ⟨t, ht⟩ := h
    rw [encode_cons, encode_cons, List.append_assoc] at ht
    obtain rfl := utf8EncodeChar_cancel ht
    have hrest := List.append_cancel_left ht
    exact List.cons_prefix_cons.mpr ⟨rfl, prefix_of_encode ⟨t, hrest⟩⟩

/-- Bytes cut from an encoded text either do not decode or decode to a text cut
from it, and to the whole text only when nothing was cut. -/
theorem decode_prefix {bs : Bytes} {cs ds : List Char} (hp : bs <+: encode cs)
    (hd : decode bs = some ds) : ds <+: cs ∧ (ds = cs → bs = encode cs) := by
  have he := decode_eq_some hd
  exact ⟨prefix_of_encode (he ▸ hp), fun h => h ▸ he⟩

theorem length_le_encode (cs : List Char) : cs.length ≤ (encode cs).length := by
  induction cs with
  | nil => exact Nat.zero_le _
  | cons c cs ih =>
    have hc := c.utf8Size_pos
    rw [encode_cons, List.length_append, String.length_utf8EncodeChar, List.length_cons]
    omega

/-! ## Bytes below 128 -/

theorem ne_ofNat_of_toNat_lt {b : UInt8} (hb : b.toNat < 128) {n : Nat} (h : 128 ≤ n)
    (hn : n < 256) : b ≠ UInt8.ofNat n := by
  rintro rfl
  rw [UInt8.toNat_ofNat'] at hb
  omega

/-- They stand for the character of that number alone: every byte of a longer encoding is
at least 128. -/
theorem toNat_of_mem_utf8EncodeChar {c : Char} {b : UInt8} (hb : b.toNat < 128)
    (h : b ∈ String.utf8EncodeChar c) : c.toNat = b.toNat := by
  have hc : c.toNat = c.val.toNat := rfl
  unfold String.utf8EncodeChar at h
  dsimp only at h
  split at h
  · obtain rfl := List.mem_singleton.mp h
    rw [UInt8.toNat_ofNat'] at hb ⊢
    omega
  split at h
  · simp only [List.mem_cons, List.not_mem_nil, or_false] at h
    rcases h with h | h
    all_goals exact absurd h (ne_ofNat_of_toNat_lt hb (by omega) (by omega))
  split at h
  · simp only [List.mem_cons, List.not_mem_nil, or_false] at h
    rcases h with h | h | h
    all_goals exact absurd h (ne_ofNat_of_toNat_lt hb (by omega) (by omega))
  · simp only [List.mem_cons, List.not_mem_nil, or_false] at h
    rcases h with h | h | h | h
    all_goals exact absurd h (ne_ofNat_of_toNat_lt hb (by omega) (by omega))

theorem exists_mem_of_mem_encode {cs : List Char} {b : UInt8} (hb : b.toNat < 128)
    (h : b ∈ encode cs) : ∃ c ∈ cs, c.toNat = b.toNat := by
  obtain ⟨c, hc, hmem⟩ := List.mem_flatMap.mp h
  exact ⟨c, hc, toNat_of_mem_utf8EncodeChar hb hmem⟩

/-- They take a byte each. -/
theorem length_encode_of_lt {cs : List Char} (h : ∀ c ∈ cs, c.toNat < 128) :
    (encode cs).length = cs.length := by
  induction cs with
  | nil => rfl
  | cons c cs ih =>
    have hc : c.utf8Size = 1 := by
      rw [Char.utf8Size_eq_one_iff, UInt32.le_iff_toNat_le]
      exact Nat.le_of_lt_succ (h c (.head _))
    rw [encode_cons, List.length_append, String.length_utf8EncodeChar, hc, List.length_cons,
      ih fun d hd => h d (.tail _ hd)]
    omega

end SchedulingUtil.Lib.Utf8
