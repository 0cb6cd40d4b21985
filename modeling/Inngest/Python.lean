import Mathlib.Data.Int.Notation
import Mathlib.Data.List.Forall2
import Mathlib.Data.List.TakeDrop
import Mathlib.Logic.Function.Basic

/-!
# Texts as Python reads them

`int` on a text, `urllib.parse.parse_qs` and `str.isascii`. The parsers take
any text at all. What was rendered from plain texts is read back.
-/

set_option autoImplicit false

namespace Python

/-! ## ASCII characters -/

theorem toNat_of_isAlpha {c : Char} (h : c.isAlpha = true) :
    0x41 ≤ c.toNat ∧ c.toNat ≤ 0x5a ∨ 0x61 ≤ c.toNat ∧ c.toNat ≤ 0x7a := by
  rcases Bool.or_eq_true_iff.mp h with hupper | hlower
  · exact .inl (of_decide_eq_true hupper)
  · obtain ⟨hlow, hup⟩ := Bool.and_eq_true_iff.mp hlower
    exact .inr ⟨of_decide_eq_true hlow, of_decide_eq_true hup⟩

theorem toNat_of_isAlphanum {c : Char} (h : c.isAlphanum = true) :
    (0x41 ≤ c.toNat ∧ c.toNat ≤ 0x5a ∨ 0x61 ≤ c.toNat ∧ c.toNat ≤ 0x7a) ∨
      0x30 ≤ c.toNat ∧ c.toNat ≤ 0x39 := by
  rcases Bool.or_eq_true_iff.mp h with halpha | hdigit
  · exact .inl (toNat_of_isAlpha halpha)
  · obtain ⟨hlow, hup⟩ := Bool.and_eq_true_iff.mp hdigit
    exact .inr ⟨of_decide_eq_true hlow, of_decide_eq_true hup⟩

/-! ## `int` -/

def decimalZeros : List ℕ :=
  [0x30, 0x660, 0x6f0, 0x7c0, 0x966, 0x9e6, 0xa66, 0xae6, 0xb66, 0xbe6, 0xc66, 0xce6, 0xd66,
    0xde6, 0xe50, 0xed0, 0xf20, 0x1040, 0x1090, 0x17e0, 0x1810, 0x1946, 0x19d0, 0x1a80, 0x1a90,
    0x1b50, 0x1bb0, 0x1c40, 0x1c50, 0xa620, 0xa8d0, 0xa900, 0xa9d0, 0xa9f0, 0xaa50, 0xabf0,
    0xff10, 0x104a0, 0x10d30, 0x11066, 0x110f0, 0x11136, 0x111d0, 0x112f0, 0x11450, 0x114d0,
    0x11650, 0x116c0, 0x11730, 0x118e0, 0x11950, 0x11c50, 0x11d50, 0x11da0, 0x11f50, 0x16a60,
    0x16ac0, 0x16b50, 0x1d7ce, 0x1d7d8, 0x1d7e2, 0x1d7ec, 0x1d7f6, 0x1e140, 0x1e2f0, 0x1e4f0,
    0x1e950, 0x1fbf0]

def decimal (c : Char) : Option ℕ :=
  (decimalZeros.find? fun first => first ≤ c.toNat ∧ c.toNat < first + 10).map (c.toNat - ·)

/-- What `int` strips. The separators from U+001C to U+001F, white space to
`str.isspace`, are none here. -/
def isSpace (c : Char) : Bool :=
  c.toNat ∈ [0x9, 0xa, 0xb, 0xc, 0xd, 0x20, 0x85, 0xa0, 0x1680, 0x2000, 0x2001, 0x2002, 0x2003,
    0x2004, 0x2005, 0x2006, 0x2007, 0x2008, 0x2009, 0x200a, 0x2028, 0x2029, 0x202f, 0x205f, 0x3000]

def strip (cs : List Char) : List Char :=
  ((cs.dropWhile isSpace).reverse.dropWhile isSpace).reverse

def digits : List Char → Option (List ℕ)
  | [] => none
  | [c] => (decimal c).map fun d => [d]
  | c :: '_' :: cs => (decimal c).bind fun d => (digits cs).map (d :: ·)
  | c :: cs => (decimal c).bind fun d => (digits cs).map (d :: ·)

def sign : List Char → Bool × List Char
  | '-' :: cs => (true, cs)
  | '+' :: cs => (false, cs)
  | cs => (false, cs)

def maxStrDigits : ℕ := 4300

def int (text : String) : Option ℤ :=
  let (negative, cs) := sign (strip text.toList)
  (digits cs).bind fun ds =>
    if ds.length ≤ maxStrDigits then
      let n : ℕ := ds.foldl (fun n d => 10 * n + d) 0
      some (if negative then -n else n)
    else none

example : int " +1_2\t" = some 12 ∧ int "1__2" = none ∧ int "-٣" = some (-3) ∧
    int "\x1c1" = none := by decide

theorem isDigit_bounds {c : Char} (h : c.isDigit = true) : 0x30 ≤ c.toNat ∧ c.toNat ≤ 0x39 := by
  simp only [Char.isDigit, Bool.and_eq_true, decide_eq_true_eq, ge_iff_le,
    UInt32.le_iff_toNat_le] at h
  exact h

theorem decimal_of_isDigit {c : Char} (h : c.isDigit = true) :
    decimal c = some (c.toNat - '0'.toNat) := by
  have hc := isDigit_bounds h
  rw [decimal, decimalZeros, List.find?_cons_of_pos (by simp; omega)]
  rfl

theorem isSpace_of_isDigit {c : Char} (h : c.isDigit = true) : isSpace c = false := by
  have hc := isDigit_bounds h
  simp only [isSpace, List.mem_cons, List.not_mem_nil, or_false, decide_eq_false_iff_not]
  omega

theorem digits_of_isDigit {cs : List Char} (hne : cs ≠ []) (h : ∀ c ∈ cs, c.isDigit = true) :
    digits cs = some (cs.map fun c => c.toNat - '0'.toNat) := by
  induction cs with
  | nil => exact absurd rfl hne
  | cons c cs ih =>
    have hc := decimal_of_isDigit (h c (by simp))
    rcases cs with - | ⟨c', cs⟩
    · simp [digits, hc]
    · have hrest := ih (by simp) fun d hd => h d (by simp [hd])
      have hno : c' ≠ '_' := by
        rintro rfl
        exact absurd (h '_' (by simp)) (by decide)
      rw [digits, hc, hrest]
      · rfl
      · simp
      · rintro _ ⟨⟩
        exact hno rfl

theorem strip_of_not_space {cs : List Char} (h : ∀ c ∈ cs, isSpace c = false) : strip cs = cs := by
  have hdrop : ∀ {ds : List Char}, (∀ c ∈ ds, isSpace c = false) → ds.dropWhile isSpace = ds := by
    intro ds hds
    cases ds with
    | nil => rfl
    | cons d ds => simp [hds d (by simp)]
  rw [strip, hdrop h, hdrop (by simpa using h), List.reverse_reverse]

theorem sign_of_isDigit {cs : List Char} (h : ∀ c ∈ cs, c.isDigit = true) :
    sign cs = (false, cs) := by
  rw [sign]
  · rintro cs rfl
    exact absurd (h '-' (by simp)) (by decide)
  · rintro cs rfl
    exact absurd (h '+' (by simp)) (by decide)

theorem toString_isDigit (n : ℕ) : ∀ c ∈ (toString n).toList, c.isDigit = true := by
  rw [show (toString n).toList = Nat.toDigits 10 n from Nat.toList_repr]
  exact fun c hc => Nat.isDigit_of_mem_toDigits (by decide) (by decide) hc

theorem toString_ne_nil (n : ℕ) : (toString n).toList ≠ [] := by
  rw [show (toString n).toList = Nat.toDigits 10 n from Nat.toList_repr]
  exact Nat.toDigits_ne_nil

theorem digits_toString (n : ℕ) : ∃ ds, digits (toString n).toList = some ds ∧
    ds.length = (toString n).length ∧ ds.foldl (fun n d => 10 * n + d) 0 = n := by
  refine ⟨_, digits_of_isDigit (toString_ne_nil n) (toString_isDigit n), ?_, ?_⟩
  · rw [List.length_map, String.length_toList]
  · rw [List.foldl_map, show (toString n).toList = Nat.toDigits 10 n from Nat.toList_repr,
      ← Nat.ofDigitChars_eq_foldl, Nat.ofDigitChars_ten_toDigits]

theorem int_toString {n : ℕ} (h : (toString n).length ≤ maxStrDigits) :
    int (toString n) = some n := by
  obtain ⟨ds, hds, hlength, hvalue⟩ := digits_toString n
  rw [int, strip_of_not_space fun c hc => isSpace_of_isDigit (toString_isDigit n c hc),
    sign_of_isDigit (toString_isDigit n)]
  simp only [hds, Option.bind_some, hvalue, if_pos (hlength ▸ h), Bool.false_eq_true, if_false]
  rfl

theorem int_toString_int {n : ℤ} (h : (toString n.natAbs).length ≤ maxStrDigits) :
    int (toString n) = some n := by
  cases n with
  | ofNat m => exact int_toString h
  | negSucc m =>
    have htext : (toString (Int.negSucc m)).toList = '-' :: (toString (m + 1)).toList :=
      String.toList_append
    have hspace : ∀ c ∈ '-' :: (toString (m + 1)).toList, isSpace c = false := by
      intro c hc
      rcases List.mem_cons.mp hc with rfl | hc
      · decide
      · exact isSpace_of_isDigit (toString_isDigit _ c hc)
    obtain ⟨ds, hds, hlength, hvalue⟩ := digits_toString (m + 1)
    have hlong : ds.length ≤ maxStrDigits := hlength ▸ h
    rw [int, htext, strip_of_not_space hspace, sign]
    simp only [hds, Option.bind_some, hvalue, if_pos hlong, if_true]
    rfl

/-! ## Bytes -/

abbrev Bytes := List UInt8

def encode (text : String) : Bytes := text.toUTF8.data.toList

theorem encode_injective : Function.Injective encode := fun _ _ h =>
  String.toByteArray_inj.mp (ByteArray.ext (Array.toList_inj.mp h))

def isAscii (c : Char) : Bool := c.toNat < 0x80

def hexDigit (c : Char) : Option ℕ :=
  if c.isDigit then some (c.toNat - '0'.toNat)
  else if 'a' ≤ c ∧ c ≤ 'f' then some (c.toNat - 'a'.toNat + 10)
  else if 'A' ≤ c ∧ c ≤ 'F' then some (c.toNat - 'A'.toNat + 10)
  else none

/-- `bytearray.fromhex`: white space may stand between two bytes. -/
def fromHex : List Char → Option Bytes
  | [] => some []
  | [c] => if isAscii c ∧ isSpace c then some [] else none
  | a :: b :: cs =>
    if isAscii a ∧ isSpace a then fromHex (b :: cs)
    else match hexDigit a, hexDigit b with
      | some x, some y => (fromHex cs).map (.ofNat (16 * x + y) :: ·)
      | _, _ => none

def IsHex (text : String) : Prop := ∀ c ∈ text.toList, c.isDigit = true ∨ 'a' ≤ c ∧ c ≤ 'f'

theorem IsHex.lt {text : String} (h : IsHex text) {c : Char} (hc : c ∈ text.toList) :
    0x30 ≤ c.toNat ∧ c.toNat ≤ 0x39 ∨ 0x61 ≤ c.toNat ∧ c.toNat ≤ 0x66 :=
  (h c hc).imp isDigit_bounds fun hc => ⟨hc.1, hc.2⟩

theorem IsHex.isAscii {text : String} (h : IsHex text) : text.toList.all isAscii = true := by
  rw [List.all_eq_true]
  intro c hc
  have := h.lt hc
  simp only [Python.isAscii, decide_eq_true_eq]
  omega

def hexByte (b : UInt8) : List Char :=
  [Nat.digitChar (b.toNat / 16), Nat.digitChar (b.toNat % 16)]

def hex (bs : Bytes) : String := .ofList (bs.flatMap hexByte)

theorem hexDigit_digitChar : ∀ n : Fin 16, hexDigit (Nat.digitChar n) = some n.val := by decide

theorem isSpace_digitChar : ∀ n : Fin 16, isSpace (Nat.digitChar n) = false := by decide

theorem digitChar_bounds : ∀ n : Fin 16, (Nat.digitChar n).isDigit = true ∨
    'a' ≤ Nat.digitChar n ∧ Nat.digitChar n ≤ 'f' := by decide

theorem fromHex_hex (bs : Bytes) : fromHex (hex bs).toList = some bs := by
  rw [hex, String.toList_ofList]
  induction bs with
  | nil => rfl
  | cons b bs ih =>
    have hb := b.toNat_lt
    have hhigh := hexDigit_digitChar ⟨b.toNat / 16, by omega⟩
    have hlow := hexDigit_digitChar ⟨b.toNat % 16, by omega⟩
    have hspace := isSpace_digitChar ⟨b.toNat / 16, by omega⟩
    simp only at hhigh hlow hspace
    have hsplit : 16 * (b.toNat / 16) + b.toNat % 16 = b.toNat := by omega
    simp [hexByte, fromHex, hhigh, hlow, hspace, ih, hsplit]

theorem hex_injective : Function.Injective hex := fun a b h => by
  have ha := fromHex_hex a
  rw [h, fromHex_hex] at ha
  exact (Option.some.inj ha).symm

theorem isHex_hex (bs : Bytes) : IsHex (hex bs) := by
  intro c hc
  rw [hex, String.toList_ofList] at hc
  obtain ⟨b, -, hc⟩ := List.mem_flatMap.mp hc
  have hb := b.toNat_lt
  simp only [hexByte, List.mem_cons, List.not_mem_nil, or_false] at hc
  rcases hc with rfl | rfl
  · exact digitChar_bounds ⟨b.toNat / 16, by omega⟩
  · exact digitChar_bounds ⟨b.toNat % 16, by omega⟩

theorem length_hex (bs : Bytes) : (hex bs).length = 2 * bs.length := by
  rw [← String.length_toList, hex, String.toList_ofList]
  induction bs with
  | nil => rfl
  | cons b bs ih => simp [hexByte, ih]; omega

/-! ## `urllib.parse.parse_qs` -/

def unquoteToBytes : List Char → List UInt8
  | [] => []
  | '%' :: a :: b :: cs =>
    match hexDigit a, hexDigit b with
    | some x, some y => .ofNat (16 * x + y) :: unquoteToBytes cs
    | _, _ => .ofNat '%'.toNat :: unquoteToBytes (a :: b :: cs)
  | c :: cs => .ofNat c.toNat :: unquoteToBytes cs

/-- A character of several bytes that has begun: its bits so far, how many
bytes are missing, and the range of the next one. -/
structure Partial where
  bits : ℕ
  missing : ℕ
  least : ℕ
  greatest : ℕ

def beginChar (b : ℕ) : Char ⊕ Partial :=
  if b < 0x80 then .inl (.ofNat b)
  else if 0xc2 ≤ b ∧ b ≤ 0xdf then .inr ⟨b - 0xc0, 1, 0x80, 0xbf⟩
  else if 0xe0 ≤ b ∧ b ≤ 0xef then
    .inr ⟨b - 0xe0, 2, if b = 0xe0 then 0xa0 else 0x80, if b = 0xed then 0x9f else 0xbf⟩
  else if 0xf0 ≤ b ∧ b ≤ 0xf4 then
    .inr ⟨b - 0xf0, 3, if b = 0xf0 then 0x90 else 0x80, if b = 0xf4 then 0x8f else 0xbf⟩
  else .inl '\uFFFD'

/-- `bytes.decode("utf-8", "replace")`: one replacement character for as much
of a character as was there. -/
def decodeReplace : Option Partial → List UInt8 → List Char
  | none, [] => []
  | some _, [] => ['\uFFFD']
  | pending, b :: bs =>
    let fresh : List Char := match beginChar b.toNat with
      | .inl c => c :: decodeReplace none bs
      | .inr p => decodeReplace (some p) bs
    match pending with
    | none => fresh
    | some p =>
      if p.least ≤ b.toNat ∧ b.toNat ≤ p.greatest then
        let bits := 0x40 * p.bits + (b.toNat - 0x80)
        if p.missing = 1 then .ofNat bits :: decodeReplace none bs
        else decodeReplace (some ⟨bits, p.missing - 1, 0x80, 0xbf⟩) bs
      else '\uFFFD' :: fresh

def unquote (cs : List Char) : List Char :=
  if '%' ∈ cs then
    (cs.splitBy fun a b => isAscii a = isAscii b).flatMap fun run =>
      if run.all isAscii then decodeReplace none (unquoteToBytes run) else run
  else cs

def plusToSpace (cs : List Char) : List Char := cs.map fun c => if c = '+' then ' ' else c

def unquotePlus (cs : List Char) : String := .ofList (unquote (plusToSpace cs))

def argument (cs : List Char) : Option (String × String) :=
  match cs.span (· ≠ '=') with
  | (name, _ :: value) =>
    if value = [] then none else some (unquotePlus name, unquotePlus value)
  | (_, []) => none

def parseQsl (qs : String) : List (String × String) :=
  (qs.toList.splitOn '&').filterMap argument

def firstOf (qs name : String) : Option String :=
  ((parseQsl qs).find? fun a => a.1 = name).map (·.2)

example : parseQsl "&a%3Db=1&t=&t=+é%41&s=1=%C3%A9%zz&u=%E0%80" =
    [("a=b", "1"), ("t", " éA"), ("s", "1=é%zz"), ("u", "\uFFFD\uFFFD")] := by
  decide

def quoteByte (b : UInt8) : List Char :=
  let c := Char.ofNat b.toNat
  if c.isAlphanum ∨ c ∈ ['_', '.', '-', '~'] then [c]
  else if c = ' ' then ['+']
  else ['%', (Nat.digitChar (b.toNat / 16)).toUpper, (Nat.digitChar (b.toNat % 16)).toUpper]

def quotePlus (text : String) : String := .ofList ((encode text).flatMap quoteByte)

def urlencode (query : List (String × String)) : String :=
  "&".intercalate (query.map fun a => quotePlus a.1 ++ "=" ++ quotePlus a.2)

/-- A text that a query can hold as it is. -/
def Plain (cs : List Char) : Prop := ∀ c ∈ cs, c ≠ '&' ∧ c ≠ '=' ∧ c ≠ '%' ∧ c ≠ '+'

def render (a : List Char × List Char) : List Char := a.1 ++ '=' :: a.2

theorem unquotePlus_plain {cs : List Char} (h : Plain cs) : unquotePlus cs = .ofList cs := by
  have hplus : plusToSpace cs = cs :=
    (List.map_congr_left fun c hc => if_neg (h c hc).2.2.2).trans (List.map_id' cs)
  have hpercent : '%' ∉ cs := fun hc => (h _ hc).2.2.1 rfl
  rw [unquotePlus, hplus, unquote, if_neg hpercent]

theorem argument_append {name value : List Char} (hn : '=' ∉ name) (hne : value ≠ []) :
    argument (name ++ '=' :: value) = some (unquotePlus name, unquotePlus value) := by
  have hname : ∀ c ∈ name, decide (c ≠ '=') = true := by
    intro c hc
    simpa using fun h : c = '=' => hn (h ▸ hc)
  have hspan : (name ++ '=' :: value).span (· ≠ '=') = (name, '=' :: value) := by
    rw [List.span_eq_takeWhile_dropWhile, List.takeWhile_append_of_pos hname,
      List.dropWhile_append_of_pos hname]
    simp
  rw [argument, hspan]
  simp only [if_neg hne]

theorem argument_render {name value : List Char} (hn : Plain name) (hv : Plain value)
    (hne : value ≠ []) :
    argument (render (name, value)) = some (.ofList name, .ofList value) := by
  rw [render, argument_append (fun h => (hn _ h).2.1 rfl) hne, unquotePlus_plain hn,
    unquotePlus_plain hv]

theorem parseQsl_intercalate {parts : List (List Char)} {args : List (String × String)}
    (hne : parts ≠ []) (hsep : ∀ cs ∈ parts, '&' ∉ cs)
    (h : List.Forall₂ (fun cs a => argument cs = some a) parts args) :
    parseQsl (.ofList (['&'].intercalate parts)) = args := by
  rw [parseQsl, String.toList_ofList, List.splitOn_intercalate _ hsep hne]
  clear hsep hne
  induction h with
  | nil => rfl
  | cons ha _ ih => rw [List.filterMap_cons_some ha, ih]

theorem parseQsl_render {args : List (List Char × List Char)} (hne : args ≠ [])
    (h : ∀ a ∈ args, Plain a.1 ∧ Plain a.2 ∧ a.2 ≠ []) :
    parseQsl (.ofList (['&'].intercalate (args.map render))) =
      args.map fun a => (.ofList a.1, .ofList a.2) := by
  apply parseQsl_intercalate (by simpa using hne)
  · intro cs hcs hmem
    obtain ⟨a, ha, rfl⟩ := List.mem_map.mp hcs
    obtain ⟨hn, hv, -⟩ := h a ha
    rcases List.mem_append.mp hmem with hc | hc
    · exact (hn _ hc).1 rfl
    · exact (hv _ (List.mem_of_ne_of_mem (by decide) hc)).1 rfl
  · rw [List.forall₂_map_left_iff, List.forall₂_map_right_iff, List.forall₂_same]
    intro a ha
    obtain ⟨hn, hv, hvalue⟩ := h a ha
    exact argument_render hn hv hvalue

theorem plain_toString (n : ℤ) : Plain (toString n).toList := by
  have hdigits : ∀ m : ℕ, Plain (toString m).toList := by
    intro m c hc
    have hbounds := isDigit_bounds (toString_isDigit m c hc)
    refine ⟨?_, ?_, ?_, ?_⟩ <;> rintro rfl <;> revert hbounds <;> decide
  cases n with
  | ofNat m => exact hdigits m
  | negSucc m =>
    rw [show (toString (Int.negSucc m)).toList = '-' :: (toString (m + 1)).toList from
      String.toList_append]
    intro c hc
    rcases List.mem_cons.mp hc with rfl | hc
    · decide
    · exact hdigits _ c hc

theorem plain_of_lt {cs : List Char} (h : ∀ c ∈ cs, 0x30 ≤ c.toNat ∧ c.toNat ≠ 0x3d) :
    Plain cs := by
  intro c hc
  have hbounds := h c hc
  refine ⟨?_, ?_, ?_, ?_⟩ <;> rintro rfl <;> revert hbounds <;> decide

end Python
