import Adf.Json.Reader

/-!
# Characters and their bytes

Texts are written as characters and read as bytes. The two meet in `encode`: it is what a text's bytes are,
the bytes of a string's characters are taken for that string again, and no byte of a character that a string
may hold as it is can be mistaken for the end of the string.
-/

namespace Adf.Json

/-- The bytes of characters. -/
def encode (cs : List Char) : List UInt8 :=
  cs.flatMap String.utf8EncodeChar

@[simp] theorem encode_nil : encode [] = [] := rfl

@[simp] theorem encode_append (cs ds : List Char) : encode (cs ++ ds) = encode cs ++ encode ds :=
  List.flatMap_append

theorem encode_cons (c : Char) (cs : List Char) : encode (c :: cs) = String.utf8EncodeChar c ++ encode cs :=
  List.flatMap_cons

/-! ## Byte arrays -/

theorem toList_loop_eq (bytes : ByteArray) (i : Nat) (done : List UInt8) :
    ByteArray.toList.loop bytes i done = done.reverse ++ bytes.data.toList.drop i := by
  induction i, done using ByteArray.toList.loop.induct bytes with
  | case1 i done hi ih =>
    have hget : bytes.get! i = bytes.data[i] := getElem!_pos bytes.data i hi
    have hdrop : bytes.data.toList.drop i = bytes.get! i :: bytes.data.toList.drop (i + 1) := by
      rw [List.drop_eq_getElem_cons (by simpa using hi), hget]
      rfl
    rw [ByteArray.toList.loop, if_pos hi, ih, hdrop, List.reverse_cons, List.append_assoc]
    rfl
  | case2 i done hi =>
    have hlength : bytes.data.toList.length ≤ i := Nat.le_of_not_lt hi
    rw [ByteArray.toList.loop, if_neg hi, List.drop_of_length_le hlength, List.append_nil]

theorem toList_eq_data (bytes : ByteArray) : bytes.toList = bytes.data.toList :=
  toList_loop_eq bytes 0 []

/-- The bytes of a text are those of its characters. -/
theorem toList_toByteArray_ofList (cs : List Char) : (String.ofList cs).toByteArray.toList = encode cs := by
  rw [String.toByteArray_ofList, toList_eq_data, List.utf8Encode, List.toList_data_toByteArray]
  rfl

/-- The bytes of characters are taken for the string of these characters. -/
theorem fromUTF8?_encode (cs : List Char) :
    String.fromUTF8? ⟨(encode cs).toArray⟩ = some (String.ofList cs) := by
  have hbytes : (⟨(encode cs).toArray⟩ : ByteArray) = cs.utf8Encode := by
    apply ByteArray.ext
    rw [List.utf8Encode, List.data_toByteArray]
    rfl
  have hvalid : ByteArray.IsValidUTF8 ⟨(encode cs).toArray⟩ := ⟨cs, hbytes⟩
  rw [String.fromUTF8?, dif_pos hvalid, Option.some_inj, ← String.toByteArray_inj,
    String.toByteArray_ofList]
  exact hbytes

/-! ## Bytes inside a string -/

/-- A byte that neither ends a string nor opens an escape and is no control character. -/
def isPlain (b : UInt8) : Bool :=
  0x20 ≤ b && b != 0x22 && b != 0x5c

theorem isPlain_of_toNat {b : UInt8} (hlow : 0x20 ≤ b.toNat) (hquote : b.toNat ≠ 0x22)
    (hslash : b.toNat ≠ 0x5c) : isPlain b = true := by
  have h₁ : (0x20 : UInt8) ≤ b := UInt8.le_iff_toNat_le.mpr hlow
  have h₂ : b ≠ 0x22 := fun h => hquote (congrArg UInt8.toNat h)
  have h₃ : b ≠ 0x5c := fun h => hslash (congrArg UInt8.toNat h)
  simp [isPlain, h₁, h₂, h₃]

/-- The bytes of a character beyond ASCII all have their highest bit set. -/
theorem le_of_mem_utf8EncodeChar {c : Char} (hc : 0x7f < c.val.toNat) :
    ∀ b ∈ String.utf8EncodeChar c, 0x80 ≤ b.toNat := by
  have hsum : ∀ n k, 0x80 ≤ k → n + k < 0x100 → 0x80 ≤ (UInt8.ofNat (n + k)).toNat := by
    intro n k hk hn
    rw [UInt8.toNat_ofNat_of_lt' hn]
    omega
  simp only [String.utf8EncodeChar, if_neg (Nat.not_le.mpr hc)]
  split
  · refine List.forall_mem_cons.mpr ⟨hsum _ _ ?_ ?_, List.forall_mem_singleton.mpr (hsum _ _ ?_ ?_)⟩
    all_goals omega
  split
  · refine List.forall_mem_cons.mpr ⟨hsum _ _ ?_ ?_, List.forall_mem_cons.mpr ⟨hsum _ _ ?_ ?_,
      List.forall_mem_singleton.mpr (hsum _ _ ?_ ?_)⟩⟩
    all_goals omega
  · refine List.forall_mem_cons.mpr ⟨hsum _ _ ?_ ?_, List.forall_mem_cons.mpr ⟨hsum _ _ ?_ ?_,
      List.forall_mem_cons.mpr ⟨hsum _ _ ?_ ?_, List.forall_mem_singleton.mpr (hsum _ _ ?_ ?_)⟩⟩⟩
    all_goals omega

theorem utf8EncodeChar_of_ascii {c : Char} (hc : c.val.toNat ≤ 0x7f) :
    String.utf8EncodeChar c = [UInt8.ofNat c.val.toNat] :=
  if_pos hc

theorem isPlain_of_mem_utf8EncodeChar {c : Char} (hlow : 0x20 ≤ c.val.toNat) (hquote : c ≠ '"')
    (hslash : c ≠ '\\') : ∀ b ∈ String.utf8EncodeChar c, isPlain b = true := by
  intro b hb
  have hquote' : c.val.toNat ≠ 0x22 := fun h => hquote (Char.toNat_inj.mp h)
  have hslash' : c.val.toNat ≠ 0x5c := fun h => hslash (Char.toNat_inj.mp h)
  by_cases hascii : c.val.toNat ≤ 0x7f
  · rw [utf8EncodeChar_of_ascii hascii, List.mem_singleton] at hb
    have hval : b.toNat = c.val.toNat := by
      rw [hb, UInt8.toNat_ofNat_of_lt' (Nat.lt_of_le_of_lt hascii (by decide))]
    apply isPlain_of_toNat <;> omega
  · have hhigh := le_of_mem_utf8EncodeChar (Nat.lt_of_not_le hascii) b hb
    apply isPlain_of_toNat <;> omega

end Adf.Json
