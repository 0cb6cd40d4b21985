import Mathlib.Data.Bool.AllAny
import Mathlib.Data.List.SplitBy
import Inngest.Python

/-!
# Texts that are quoted for a query

What `quote_plus` writes, `unquote_plus` reads back: each byte by itself, and
the bytes of a character together. No separator is among what is written, so a
whole query is read back as well.
-/

set_option autoImplicit false

namespace Python

/-! ## Characters as bytes -/

theorem encode_eq (text : String) : encode text = text.toList.flatMap String.utf8EncodeChar := by
  rw [encode, String.toUTF8_eq_toByteArray, ← String.utf8Encode_toList, List.utf8Encode,
    List.data_toByteArray]

theorem decode_single {b : ℕ} (bs : List UInt8) (h : b < 0x80) :
    decodeReplace none (.ofNat b :: bs) = .ofNat b :: decodeReplace none bs := by
  have hb : (UInt8.ofNat b).toNat = b := by
    rw [UInt8.toNat_ofNat']
    omega
  rw [decodeReplace, beginChar, hb, if_pos h]

theorem decode_begin {b : ℕ} {p : Partial} (bs : List UInt8) (hlt : b < 0x100)
    (h : beginChar b = .inr p) :
    decodeReplace none (.ofNat b :: bs) = decodeReplace (some p) bs := by
  have hb : (UInt8.ofNat b).toNat = b := by
    rw [UInt8.toNat_ofNat']
    omega
  rw [decodeReplace, hb, h]

theorem decode_next {b bits missing least greatest : ℕ} (bs : List UInt8) (hlt : b < 0x100)
    (hleast : least ≤ b) (hgreatest : b ≤ greatest) (hmissing : missing ≠ 1) :
    decodeReplace (some ⟨bits, missing, least, greatest⟩) (.ofNat b :: bs) =
      decodeReplace (some ⟨0x40 * bits + (b - 0x80), missing - 1, 0x80, 0xbf⟩) bs := by
  have hb : (UInt8.ofNat b).toNat = b := by
    rw [UInt8.toNat_ofNat']
    omega
  rw [decodeReplace]
  simp only [hb]
  rw [if_pos ⟨hleast, hgreatest⟩, if_neg hmissing]

theorem decode_last {b bits least greatest : ℕ} (bs : List UInt8) (hlt : b < 0x100)
    (hleast : least ≤ b) (hgreatest : b ≤ greatest) :
    decodeReplace (some ⟨bits, 1, least, greatest⟩) (.ofNat b :: bs) =
      .ofNat (0x40 * bits + (b - 0x80)) :: decodeReplace none bs := by
  have hb : (UInt8.ofNat b).toNat = b := by
    rw [UInt8.toNat_ofNat']
    omega
  rw [decodeReplace]
  simp only [hb]
  rw [if_pos ⟨hleast, hgreatest⟩, if_pos (by simp)]

theorem decode_char (c : Char) (bs : List UInt8) :
    decodeReplace none (String.utf8EncodeChar c ++ bs) = c :: decodeReplace none bs := by
  have hvalid : c.toNat < 0xd800 ∨ 0xdfff < c.toNat ∧ c.toNat < 0x110000 := c.valid
  have hchar : ∀ {n : ℕ}, n = c.toNat → Char.ofNat n = c := fun h => h ▸ Char.ofNat_toNat c
  rw [String.utf8EncodeChar, show c.val.toNat = c.toNat from rfl]
  generalize c.toNat = n at hvalid hchar
  split
  · rw [List.singleton_append, decode_single _ (by omega), hchar rfl]
  split
  · rw [List.cons_append, decode_begin _ (by omega)
      (by rw [beginChar, if_neg (by omega), if_pos (by omega)]), List.singleton_append,
      decode_last _ (by omega) (by omega) (by omega), hchar (by omega)]
  split
  · rw [List.cons_append, decode_begin _ (by omega)
      (by rw [beginChar, if_neg (by omega), if_neg (by omega), if_pos (by omega)]),
      List.cons_append, decode_next _ (by omega) (by split <;> omega) (by split <;> omega)
        (by decide), List.singleton_append,
      decode_last _ (by omega) (by omega) (by omega), hchar (by omega)]
  · rw [List.cons_append, decode_begin _ (by omega)
      (by rw [beginChar, if_neg (by omega), if_neg (by omega), if_neg (by omega),
        if_pos (by omega)]),
      List.cons_append, decode_next _ (by omega) (by split <;> omega) (by split <;> omega)
        (by decide), List.cons_append,
      decode_next _ (by omega) (by omega) (by omega) (by decide), List.singleton_append,
      decode_last _ (by omega) (by omega) (by omega), hchar (by omega)]

theorem decode_encode (text : String) : decodeReplace none (encode text) = text.toList := by
  rw [encode_eq]
  induction text.toList with
  | nil => rfl
  | cons c cs ih => rw [List.flatMap_cons, decode_char, ih]

/-! ## Bytes as quoted characters -/

theorem hexDigit_upper : ∀ n : Fin 16, hexDigit (Nat.digitChar n).toUpper = some n.val := by decide

def isQuoted (c : Char) : Bool := c.isAlphanum || c ∈ ['_', '.', '-', '~', '+', '%']

theorem isQuoted_upper : ∀ n : Fin 16, isQuoted (Nat.digitChar n).toUpper = true := by decide

theorem isQuoted_quoteByte {b : UInt8} {c : Char} (h : c ∈ quoteByte b) : isQuoted c = true := by
  have hb := b.toNat_lt
  rw [quoteByte] at h
  split at h
  · rename_i hsafe
    obtain rfl := List.mem_singleton.mp h
    simp only [isQuoted, Bool.or_eq_true, decide_eq_true_eq]
    rcases hsafe with hc | hc
    · exact .inl hc
    · exact .inr (List.mem_append_left ['+', '%'] hc)
  split at h
  · obtain rfl := List.mem_singleton.mp h
    rfl
  · simp only [List.mem_cons, List.not_mem_nil, or_false] at h
    rcases h with rfl | rfl | rfl
    · rfl
    · exact isQuoted_upper ⟨b.toNat / 16, by omega⟩
    · exact isQuoted_upper ⟨b.toNat % 16, by omega⟩

theorem isQuoted_bounds {c : Char} (h : isQuoted c = true) :
    c.toNat < 0x80 ∧ c ≠ '&' ∧ c ≠ '=' ∧ c ≠ '#' ∧ c ≠ '?' := by
  rw [isQuoted, Bool.or_eq_true] at h
  rcases h with h | h
  · have hbounds := toNat_of_isAlphanum h
    refine ⟨by omega, ?_, ?_, ?_, ?_⟩ <;> rintro rfl <;> revert hbounds <;> decide
  · have hbounds : ∀ c ∈ ['_', '.', '-', '~', '+', '%'],
        c.toNat < 0x80 ∧ c ≠ '&' ∧ c ≠ '=' ∧ c ≠ '#' ∧ c ≠ '?' :=
      List.all_iff_forall_prop.mp (by decide)
    exact hbounds c (of_decide_eq_true h)

theorem unquoteToBytes_cons {c : Char} (h : c ≠ '%') (cs : List Char) :
    unquoteToBytes (c :: cs) = .ofNat c.toNat :: unquoteToBytes cs := by
  rw [unquoteToBytes]
  rintro a b cs rfl
  exact absurd rfl h

theorem plusToSpace_cons {c : Char} (h : c ≠ '+') (cs : List Char) :
    plusToSpace (c :: cs) = c :: plusToSpace cs := by
  rw [plusToSpace, List.map_cons, if_neg h]
  rfl

theorem toNat_ofNat {n : ℕ} (h : n < 0xd800) : (Char.ofNat n).toNat = n := by
  rw [Char.ofNat, dif_pos (Or.inl h)]
  rfl

theorem unquoteToBytes_quoteByte (b : UInt8) (cs : List Char) :
    unquoteToBytes (plusToSpace (quoteByte b ++ cs)) = b :: unquoteToBytes (plusToSpace cs) := by
  have hb := b.toNat_lt
  have hhigh := hexDigit_upper ⟨b.toNat / 16, by omega⟩
  have hlow := hexDigit_upper ⟨b.toNat % 16, by omega⟩
  have hbyte : UInt8.ofNat (Char.ofNat b.toNat).toNat = b := by
    rw [toNat_ofNat (by omega), UInt8.ofNat_toNat]
  rw [quoteByte]
  split
  · rename_i hsafe
    have hne : Char.ofNat b.toNat ≠ '%' ∧ Char.ofNat b.toNat ≠ '+' := by
      constructor <;> intro h <;> rw [h] at hsafe <;> revert hsafe <;> decide
    rw [List.singleton_append, plusToSpace_cons hne.2, unquoteToBytes_cons hne.1, hbyte]
  split
  · rename_i hspace
    rw [hspace] at hbyte
    rw [List.singleton_append, plusToSpace, List.map_cons, if_pos rfl,
      unquoteToBytes_cons (by decide), hbyte]
    rfl
  · have hplus : ∀ n : Fin 16, (Nat.digitChar n).toUpper ≠ '+' := by decide
    simp only at hhigh hlow
    rw [List.cons_append, List.cons_append, List.singleton_append, plusToSpace_cons (by decide),
      plusToSpace_cons (hplus ⟨b.toNat / 16, by omega⟩),
      plusToSpace_cons (hplus ⟨b.toNat % 16, by omega⟩), unquoteToBytes, hhigh, hlow]
    simp only
    rw [show 16 * (b.toNat / 16) + b.toNat % 16 = b.toNat by omega, UInt8.ofNat_toNat]

theorem unquoteToBytes_quote (bs : Bytes) :
    unquoteToBytes (plusToSpace (bs.flatMap quoteByte)) = bs := by
  induction bs with
  | nil => rfl
  | cons b bs ih => rw [List.flatMap_cons, unquoteToBytes_quoteByte, ih]

theorem unquote_ascii {cs : List Char} (h : ∀ c ∈ cs, c.toNat < 0x80) :
    unquote cs = decodeReplace none (unquoteToBytes cs) := by
  rw [unquote]
  split
  · rename_i hpercent
    have hall : cs.all isAscii = true := by simpa [isAscii] using h
    have hchain : cs.IsChain fun a b => (decide (isAscii a = isAscii b)) = true := by
      apply List.Pairwise.isChain
      apply List.pairwise_of_forall_mem_list
      intro a ha b hb
      simp [isAscii, h a ha, h b hb]
    rw [List.splitBy_of_isChain (List.ne_nil_of_mem hpercent) hchain, List.flatMap_singleton,
      if_pos hall]
  · rename_i hplain
    induction cs with
    | nil => rfl
    | cons c cs ih =>
      rw [unquoteToBytes_cons (fun h => hplain (by simp [h])), decode_single _ (h c (by simp)),
        Char.ofNat_toNat, ← ih (fun d hd => h d (by simp [hd])) (fun hm => hplain (by simp [hm]))]

theorem quotePlus_toList (text : String) :
    (quotePlus text).toList = (encode text).flatMap quoteByte := String.toList_ofList

theorem isQuoted_quotePlus {text : String} {c : Char} (h : c ∈ (quotePlus text).toList) :
    isQuoted c = true := by
  rw [quotePlus_toList] at h
  obtain ⟨b, -, hc⟩ := List.mem_flatMap.mp h
  exact isQuoted_quoteByte hc

theorem unquotePlus_quotePlus (text : String) : unquotePlus (quotePlus text).toList = text := by
  have hascii : ∀ c ∈ plusToSpace (quotePlus text).toList, c.toNat < 0x80 := by
    intro c hc
    obtain ⟨d, hd, rfl⟩ := List.mem_map.mp hc
    split
    · decide
    · exact (isQuoted_bounds (isQuoted_quotePlus hd)).1
  rw [unquotePlus, unquote_ascii hascii, quotePlus_toList, unquoteToBytes_quote, decode_encode,
    String.ofList_toList]

/-! ## Queries -/

theorem notMem_quotePlus (text : String) : '&' ∉ (quotePlus text).toList ∧
    '=' ∉ (quotePlus text).toList := by
  constructor <;> intro h <;> exact absurd (isQuoted_quotePlus h) (by decide)

theorem quotePlus_ne_nil {text : String} (h : text ≠ "") : (quotePlus text).toList ≠ [] := by
  intro hnil
  have hback := unquotePlus_quotePlus text
  rw [hnil] at hback
  exact h hback.symm

theorem urlencode_toList (query : List (String × String)) :
    (urlencode query).toList = ['&'].intercalate (query.map fun a =>
      (quotePlus a.1).toList ++ '=' :: (quotePlus a.2).toList) := by
  simp [urlencode, String.toList_intercalate, Function.comp_def]

theorem parseQsl_urlencode {query : List (String × String)} (hne : query ≠ [])
    (h : ∀ a ∈ query, a.2 ≠ "") : parseQsl (urlencode query) = query := by
  rw [← String.ofList_toList (s := urlencode query), urlencode_toList]
  apply parseQsl_intercalate (by simpa using hne)
  · intro cs hcs hmem
    obtain ⟨a, -, rfl⟩ := List.mem_map.mp hcs
    rcases List.mem_append.mp hmem with hc | hc
    · exact (notMem_quotePlus a.1).1 hc
    · exact (notMem_quotePlus a.2).1 (List.mem_of_ne_of_mem (by decide) hc)
  · rw [List.forall₂_map_left_iff, List.forall₂_same]
    intro a ha
    rw [argument_append (notMem_quotePlus a.1).2 (quotePlus_ne_nil (h a ha)),
      unquotePlus_quotePlus, unquotePlus_quotePlus]

theorem mem_intercalate {sep : List Char} {parts : List (List Char)} {c : Char}
    (h : c ∈ sep.intercalate parts) : c ∈ sep ∨ ∃ part ∈ parts, c ∈ part := by
  induction parts with
  | nil => simp [List.intercalate] at h
  | cons part parts ih =>
    cases parts with
    | nil => exact .inr ⟨part, by simp, by simpa [List.intercalate] using h⟩
    | cons next parts =>
      rw [List.intercalate_cons_cons, List.append_assoc, List.mem_append, List.mem_append] at h
      rcases h with h | h | h
      · exact .inr ⟨part, by simp, h⟩
      · exact .inl h
      · refine (ih h).imp_right ?_
        rintro ⟨p, hp, hc⟩
        exact ⟨p, by simp [hp], hc⟩

theorem mem_urlencode {query : List (String × String)} {c : Char}
    (h : c ∈ (urlencode query).toList) : c = '&' ∨ c = '=' ∨ isQuoted c = true := by
  rw [urlencode_toList] at h
  rcases mem_intercalate h with hc | ⟨part, hpart, hc⟩
  · exact .inl (List.mem_singleton.mp hc)
  · obtain ⟨a, -, rfl⟩ := List.mem_map.mp hpart
    rcases List.mem_append.mp hc with hc | hc
    · exact .inr (.inr (isQuoted_quotePlus hc))
    · rcases List.mem_cons.mp hc with rfl | hc
      · exact .inr (.inl rfl)
      · exact .inr (.inr (isQuoted_quotePlus hc))

end Python
