import KubeCompose.Proofs.RoundTrip.Digits
import KubeCompose.Proofs.RoundTrip.Scan
import KubeCompose.Proofs.Text
import KubeCompose.Yaml.Document
import KubeCompose.Yaml.Render

/-!
# Tags that are read back

The characters of a tag that need it are escaped byte by byte, and the bytes of a character are read
together. A tag is read back as the local tag that was written, unless it holds one of the marks
that the writer leaves and the reader refuses, or an exclamation mark in front of more, which the
reader takes for part of the handle.
-/

namespace KubeCompose.Yaml

open Number (hexadecimal readDigits?)

/-! ### Bytes of text -/

theorem toList_eq_data_toList (bytes : ByteArray) : bytes.toList = bytes.data.toList := by
  have hLoop : ∀ (n i : Nat) (r : List UInt8), bytes.size - i = n →
      ByteArray.toList.loop bytes i r = r.reverse ++ bytes.data.toList.drop i := by
    intro n
    induction n with
    | zero =>
      intro i r h
      have hEnd : bytes.data.toList.length ≤ i := by
        simpa using Nat.le_of_sub_eq_zero h
      rw [ByteArray.toList.loop, if_neg (by omega), List.drop_eq_nil_of_le hEnd, List.append_nil]
    | succ n ih =>
      intro i r h
      have hLess : i < bytes.data.toList.length := by
        have : i < bytes.size := by omega
        simpa using this
      have hGet : bytes.get! i = bytes.data.toList[i] := by
        have hSize : i < bytes.data.size := by simpa using hLess
        exact (getElem!_pos bytes.data i hSize).trans (Array.getElem_toList hSize).symm
      rw [ByteArray.toList.loop, if_pos (by omega), ih (i + 1) _ (by omega), hGet,
        List.drop_eq_getElem_cons hLess]
      simp
  exact hLoop _ 0 [] rfl

/-- The bytes of a text are those of its characters. -/
theorem toUTF8_toList_ofList (cs : List Char) :
    (String.ofList cs).toUTF8.toList = cs.flatMap String.utf8EncodeChar := by
  have hBytes : (String.ofList cs).toUTF8 = (cs.flatMap String.utf8EncodeChar).toByteArray :=
    String.toByteArray_ofList
  rw [hBytes, toList_eq_data_toList, List.toList_data_toByteArray]

@[simp] theorem utf8Encode_toList_singleton (c : Char) :
    [c].utf8Encode.toList = String.utf8EncodeChar c := by
  rw [List.utf8Encode, toList_eq_data_toList, List.toList_data_toByteArray,
    List.flatMap_singleton]

/-- The first byte of a character says how many follow, and these are marked as such. -/
theorem exists_utf8EncodeChar (c : Char) :
    ∃ first more, String.utf8EncodeChar c = first :: more ∧
      followers? first.toNat = some more.length ∧
      (∀ b ∈ more, 0x80 ≤ b.toNat ∧ b.toNat < 0xC0) ∧ (c ≠ '\x00' → first ≠ 0) := by
  have hFollower : ∀ n : Nat, 0x80 ≤ (UInt8.ofNat (n % 64 + 128)).toNat ∧
      (UInt8.ofNat (n % 64 + 128)).toNat < 0xC0 := by
    intro n
    rw [UInt8.toNat_ofNat']
    omega
  have hNonzero : ∀ n : Nat, n % 256 ≠ 0 → UInt8.ofNat n ≠ 0 := by
    intro n hn hEq
    have := congrArg UInt8.toNat hEq
    rw [UInt8.toNat_ofNat'] at this
    exact hn this
  have hValid : c.val.toNat < 0xd800 ∨ (0xdfff < c.val.toNat ∧ c.val.toNat < 0x110000) := c.valid
  rw [String.utf8EncodeChar.eq_1]
  split
  · have hFirst : (UInt8.ofNat c.val.toNat).toNat < 0x80 := by
      rw [UInt8.toNat_ofNat']
      omega
    have hZero : c ≠ '\x00' → c.val.toNat % 256 ≠ 0 := by
      intro hc hMod
      exact hc (Char.ext (UInt32.toNat_inj.1 (show c.val.toNat = 0 by omega)))
    exact ⟨_, [], rfl, by rw [followers?, if_pos hFirst]; rfl, by simp,
      fun hc => hNonzero _ (hZero hc)⟩
  · split
    · refine ⟨_, _, rfl, ?_, by simpa using hFollower _, fun _ => hNonzero _ (by omega)⟩
      rw [UInt8.toNat_ofNat', followers?, if_neg (by omega), if_neg (by omega), if_pos (by omega)]
      rfl
    · split
      · refine ⟨_, _, rfl, ?_, by simpa using ⟨hFollower _, hFollower _⟩,
          fun _ => hNonzero _ (by omega)⟩
        rw [UInt8.toNat_ofNat', followers?, if_neg (by omega), if_neg (by omega),
          if_neg (by omega), if_pos (by omega)]
        rfl
      · refine ⟨_, _, rfl, ?_, by simpa using ⟨hFollower _, hFollower _, hFollower _⟩,
          fun _ => hNonzero _ (by omega)⟩
        rw [UInt8.toNat_ofNat', followers?, if_neg (by omega), if_neg (by omega),
          if_neg (by omega), if_neg (by omega), if_pos (by omega)]
        rfl

/-- Bytes as they are written in a tag. -/
def escapedBytes (bytes : List UInt8) : List Char :=
  bytes.flatMap fun b => '%' :: hexadecimal 2 b.toNat

theorem escapedByte?_escapedBytes (b : UInt8) (rest : List Char) :
    escapedByte? (escapedBytes [b] ++ rest) = some (b.toNat, rest) := by
  have hLength : (hexadecimal 2 b.toNat).length = 2 :=
    Number.length_hexadecimal (by decide) b.toNat_lt
  have hRead := Number.readDigits?_hexadecimal 2 b.toNat
  match hText : hexadecimal 2 b.toNat, hLength with
  | [x, y], _ =>
    rw [hText] at hRead
    simp [escapedBytes, hText, escapedByte?, hRead]

theorem followersOf_escapedBytes (bytes : List UInt8)
    (h : ∀ b ∈ bytes, 0x80 ≤ b.toNat ∧ b.toNat < 0xC0) (rest : List Char) :
    followersOf bytes.length (escapedBytes bytes ++ rest) = .ok (bytes, rest) := by
  induction bytes with
  | nil => rfl
  | cons b bytes ih =>
    obtain ⟨⟨hLow, hHigh⟩, h⟩ := List.forall_mem_cons.1 h
    have hText : escapedBytes (b :: bytes) ++ rest =
        escapedBytes [b] ++ (escapedBytes bytes ++ rest) := by simp [escapedBytes]
    rw [hText, List.length_cons, followersOf, escapedByte?_escapedBytes]
    simp [hLow, hHigh, ih h, Except.map]

/-! ### Characters of tags -/

/-- A character of a tag as it is written. -/
def tagChar (c : Char) : List Char :=
  if isPlainTagChar c then [c] else escapedBytes (String.utf8EncodeChar c)

theorem tagChars_eq (cs : List Char) : tagChars cs = cs.flatMap tagChar := by
  simp [tagChars]
  rfl

theorem unescapeBytes_tagChar (c : Char) (rest : List Char) (fuel : Nat) :
    unescapeBytes (fuel + 1) (tagChar c ++ rest) =
      (unescapeBytes fuel rest).map (String.utf8EncodeChar c ++ ·) := by
  by_cases hPlain : isPlainTagChar c = true
  · have hPercent : c ≠ '%' := by
      rintro rfl
      exact absurd hPlain (by decide)
    simp [tagChar, hPlain, unescapeBytes, hPercent]
  · obtain ⟨first, more, hBytes, hFollowers, hMarked, -⟩ := exists_utf8EncodeChar c
    have hText : tagChar c ++ rest = '%' :: (hexadecimal 2 first.toNat ++
        (escapedBytes more ++ rest)) := by
      simp [tagChar, hPlain, hBytes, escapedBytes]
    have hFirst := escapedByte?_escapedBytes first (escapedBytes more ++ rest)
    simp only [escapedBytes, List.flatMap_singleton, List.cons_append] at hFirst
    rw [hText, unescapeBytes]
    simp only [if_true, escapedBytes, hFirst, hFollowers, bind, Except.bind]
    have hMore := followersOf_escapedBytes more hMarked rest
    rw [escapedBytes] at hMore
    rw [hMore, hBytes]
    dsimp only
    generalize unescapeBytes fuel rest = read
    cases read <;> simp [Except.map, pure, Except.pure]

/-- The characters of a tag are read as its bytes. -/
theorem unescapeBytes_flatMap (cs : List Char) {fuel : Nat} (hFuel : cs.length ≤ fuel) :
    unescapeBytes fuel (cs.flatMap tagChar) = .ok (cs.flatMap String.utf8EncodeChar) := by
  induction cs generalizing fuel with
  | nil => cases fuel <;> rfl
  | cons c cs ih =>
    rw [List.length_cons] at hFuel
    obtain ⟨fuel, rfl⟩ : ∃ m, fuel = m + 1 := ⟨fuel - 1, by omega⟩
    rw [List.flatMap_cons, unescapeBytes_tagChar, ih (by omega)]
    rfl

theorem length_le_flatMap_tagChar (cs : List Char) : cs.length ≤ (cs.flatMap tagChar).length := by
  induction cs with
  | nil => exact Nat.le_refl 0
  | cons c cs ih =>
    have hPos : 1 ≤ (tagChar c).length := by
      unfold tagChar
      split
      · exact Nat.le_refl 1
      · obtain ⟨first, more, hBytes, -⟩ := exists_utf8EncodeChar c
        simp [hBytes, escapedBytes]
    rw [List.flatMap_cons, List.length_append, List.length_cons]
    omega

theorem zero_notMem_utf8EncodeChar {c : Char} (h : c ≠ '\x00') :
    (0 : UInt8) ∉ String.utf8EncodeChar c := by
  obtain ⟨first, more, hBytes, -, hMarked, hFirst⟩ := exists_utf8EncodeChar c
  rw [hBytes, List.mem_cons, not_or]
  exact ⟨fun hEq => hFirst h hEq.symm, fun hMem => absurd (hMarked 0 hMem).1 (by decide)⟩

theorem unescapeTag_tagChars (cs : List Char) (h : '\x00' ∉ cs) :
    unescapeTag (tagChars cs) = .ok (cs.flatMap String.utf8EncodeChar) := by
  have hNone : ∀ b ∈ cs.flatMap String.utf8EncodeChar, (b != 0) = true := by
    intro b hb
    obtain ⟨c, hc, hMem⟩ := List.mem_flatMap.1 hb
    have : c ≠ '\x00' := fun hEq => h (hEq ▸ hc)
    simp only [bne_iff_ne, ne_eq]
    rintro rfl
    exact zero_notMem_utf8EncodeChar this hMem
  have hTake : (cs.flatMap String.utf8EncodeChar).takeWhile (· != 0) =
      cs.flatMap String.utf8EncodeChar := by
    rw [← List.append_nil (cs.flatMap _), List.takeWhile_append_of_pos hNone, List.takeWhile_nil]
  rw [tagChars_eq, unescapeTag, unescapeBytes_flatMap cs (length_le_flatMap_tagChar cs),
    Except.map, hTake]

/-! ### Tags -/

/-- Whether a tag is read as it is written: it holds none of the marks that the writer leaves and
the reader refuses, and begins with no exclamation mark in front of more. -/
def keepsTag (tag : String) : Bool :=
  !tag.toList.any (",[]".toList.contains ·) && (tag == "!" || tag.toList.head? != some '!')

/-- The token of a written tag. -/
def tagToken (tag : String) : Token :=
  if tag = "!" then .tag "" "!".toUTF8.toList else .tag "!" tag.toUTF8.toList

/-- What a tag is written as stands for its characters: those of them that are words stand for
themselves. -/
theorem tagChar_of_isWordChar {c : Char} (h : isWordChar c = true) : tagChar c = [c] := by
  rw [tagChar, if_pos (by simp [isPlainTagChar, h])]

theorem flatMap_tagChar_of_isWordChar (cs : List Char) (h : ∀ c ∈ cs, isWordChar c = true) :
    cs.flatMap tagChar = cs := by
  induction cs with
  | nil => rfl
  | cons c cs ih =>
    obtain ⟨hc, h⟩ := List.forall_mem_cons.1 h
    rw [List.flatMap_cons, tagChar_of_isWordChar hc, ih h, List.singleton_append]

theorem exists_tagChar {c : Char} (h : isWordChar c = false) :
    ∃ d r, tagChar c = d :: r ∧ isWordChar d = false ∧ d ≠ '!' := by
  by_cases hPlain : isPlainTagChar c = true
  · refine ⟨c, [], by rw [tagChar, if_pos hPlain], h, ?_⟩
    rintro rfl
    exact absurd hPlain (by decide)
  · obtain ⟨first, more, hBytes, -⟩ := exists_utf8EncodeChar c
    refine ⟨'%', hexadecimal 2 first.toNat ++ escapedBytes more, ?_, by decide, by decide⟩
    simp [tagChar, hPlain, hBytes, escapedBytes]

theorem isTagChar_of_isSpaceOrBreak {c : Char} (h : isSpaceOrBreak c = true) :
    isTagChar false c = false ∧ isWordChar c = false ∧ c ≠ '!' := by
  simp only [isSpaceOrBreak, isSpaceOrTab, isBreak, Bool.or_eq_true, beq_iff_eq] at h
  rcases h with (rfl | rfl) | (((rfl | rfl) | rfl) | rfl) | rfl <;> decide

theorem isTagChar_hexadecimal {width n : Nat} : ∀ c ∈ hexadecimal width n,
    isTagChar false c = true := by
  intro c hc
  obtain ⟨d, hd, rfl⟩ := Number.hexadecimal_mem hc
  have hAll : ∀ d < 16, isTagChar false d.digitChar.toUpper = true := by decide
  exact hAll d hd

/-- The characters of a written tag are those of tags, but for the marks that are left. -/
theorem isTagChar_tagChar {c : Char} (h : ",[]".toList.contains c = false) :
    ∀ d ∈ tagChar c, isTagChar false d = true := by
  intro d hd
  unfold tagChar at hd
  split at hd
  · rename_i hPlain
    obtain rfl := List.mem_singleton.1 hd
    simp [isPlainTagChar, isTagChar] at hPlain h ⊢
    grind
  · obtain ⟨b, -, hMem⟩ := List.mem_flatMap.1 hd
    rcases List.mem_cons.1 hMem with rfl | hMem
    · decide
    · exact isTagChar_hexadecimal d hMem

theorem takeWhile_isWordChar (cs : List Char) {tail : List Char} (hTail : endsWord tail = true) :
    (cs.flatMap tagChar ++ tail).takeWhile isWordChar = cs.takeWhile isWordChar ∧
      (cs.flatMap tagChar ++ tail).drop (cs.takeWhile isWordChar).length =
        (cs.dropWhile isWordChar).flatMap tagChar ++ tail := by
  induction cs with
  | nil =>
    cases tail with
    | nil => simp
    | cons c r => simp [(isTagChar_of_isSpaceOrBreak hTail).2.1]
  | cons c cs ih =>
    cases hc : isWordChar c with
    | true => simp [tagChar_of_isWordChar hc, hc, ih]
    | false =>
      obtain ⟨d, r, hText, hd, -⟩ := exists_tagChar hc
      simp [hText, hc, hd]

/-- A tag that is more than an exclamation mark is read word by word. -/
theorem scanTag_tagChars {cs tail : List Char} (hNonempty : cs ≠ []) (hNul : '\x00' ∉ cs)
    (hMarks : ∀ c ∈ cs, ",[]".toList.contains c = false) (hTail : endsWord tail = true)
    (i l k : Nat) :
    scanTag false ⟨tagChars cs ++ tail, i, l, k⟩ =
      .ok (.tag "!" (cs.flatMap String.utf8EncodeChar),
        ⟨tail, i + byteLength (tagChars cs), l, k + (tagChars cs).length⟩) := by
  have hAll : ∀ d ∈ cs.flatMap tagChar, isTagChar false d = true := by
    intro d hd
    obtain ⟨c, hc, hMem⟩ := List.mem_flatMap.1 hd
    exact isTagChar_tagChar (hMarks c hc) d hMem
  have hAngle : ¬ (cs.flatMap tagChar ++ tail).head? = some '<' := by
    intro hHead
    cases hText : cs.flatMap tagChar with
    | nil =>
      have := length_le_flatMap_tagChar cs
      rw [hText] at this
      exact hNonempty (List.eq_nil_of_length_eq_zero (Nat.le_zero.1 this))
    | cons d r =>
      rw [hText] at hHead
      have hd := hAll d (by simp [hText])
      obtain rfl : d = '<' := Option.some.inj hHead
      exact absurd hd (by decide)
  obtain ⟨hWord, hRest⟩ := takeWhile_isWordChar cs hTail
  have hLeft := Cursor.advance_append (cs.takeWhile isWordChar)
    ((cs.dropWhile isWordChar).flatMap tagChar ++ tail) i l k
  have hSplit : tagChars cs =
      cs.takeWhile isWordChar ++ (cs.dropWhile isWordChar).flatMap tagChar := by
    have hWords := flatMap_tagChar_of_isWordChar (cs.takeWhile isWordChar)
      (List.all_eq_true.1 List.all_takeWhile)
    rw [tagChars_eq, ← hWords, ← List.flatMap_append, List.takeWhile_append_dropWhile]
  have hEnd : ∀ c r, tail = c :: r → isTagChar false c = false ∧ c ≠ '!' := by
    rintro c r rfl
    obtain ⟨hTag, -, hMark⟩ := isTagChar_of_isSpaceOrBreak hTail
    exact ⟨hTag, hMark⟩
  have hSuffix : ∀ c ∈ cs.dropWhile isWordChar, c ∈ cs :=
    fun c hc => (List.dropWhile_suffix _).subset hc
  have hBang : ¬ ((cs.dropWhile isWordChar).flatMap tagChar ++ tail).head? = some '!' := by
    intro hHead
    have hFirst := List.head?_dropWhile_not isWordChar cs
    cases hText : cs.dropWhile isWordChar with
    | nil =>
      rw [hText, List.flatMap_nil, List.nil_append] at hHead
      cases tail with
      | nil => cases hHead
      | cons c r => exact (hEnd c r rfl).2 (Option.some.inj hHead)
    | cons c r =>
      rw [hText] at hFirst hHead
      obtain ⟨d, q, hChar, -, hNe⟩ := exists_tagChar (c := c) (by simpa using hFirst)
      rw [List.flatMap_cons, hChar] at hHead
      exact hNe (Option.some.inj hHead)
  have hMore : ((cs.dropWhile isWordChar).flatMap tagChar ++ tail).takeWhile (isTagChar false) =
      (cs.dropWhile isWordChar).flatMap tagChar := by
    rw [List.takeWhile_append_of_pos]
    · cases tail with
      | nil => simp
      | cons c r => simp [(hEnd c r rfl).1]
    · intro d hd
      obtain ⟨c, hc, hMem⟩ := List.mem_flatMap.1 hd
      exact isTagChar_tagChar (hMarks c (hSuffix c hc)) d hMem
  have hUnescape := unescapeTag_tagChars (cs.dropWhile isWordChar)
    fun hMem => hNul (hSuffix _ hMem)
  rw [tagChars_eq] at hUnescape
  rw [hSplit, List.append_assoc]
  rw [tagChars_eq] at hSplit
  rw [hSplit, List.append_assoc] at hAngle hWord
  have hBytes : (String.ofList (cs.takeWhile isWordChar)).toUTF8.toList ++
      (cs.dropWhile isWordChar).flatMap String.utf8EncodeChar =
        cs.flatMap String.utf8EncodeChar := by
    rw [toUTF8_toList_ofList, ← List.flatMap_append, List.takeWhile_append_dropWhile]
  have hSome : (cs.flatMap String.utf8EncodeChar).isEmpty = false := by
    obtain ⟨c, r, rfl⟩ := List.exists_cons_of_ne_nil hNonempty
    simp [String.utf8EncodeChar_ne_nil]
  simp only [scanTag, Cursor.peek?, hAngle, if_false, hWord, hLeft, hBang, hMore, hUnescape, bind,
    Except.bind, Cursor.advance_append, hBytes, hSome, pure, Except.pure, hTail, Bool.true_or,
    if_true, Bool.false_eq_true, byteLength_append, List.length_append, Nat.add_assoc]

/-- A written tag is read as its token, up to the space or line end behind it. -/
theorem scanTag_tagText (tail : List Char) {tag : String} (hNonempty : tag ≠ "")
    (hNul : '\x00' ∉ tag.toList) (hKeeps : keepsTag tag = true) (hTail : endsWord tail = true) :
    ∃ rest, tagText tag = '!' :: rest ∧ ∀ i l k, scanTag false ⟨rest ++ tail, i, l, k⟩ =
      .ok (tagToken tag, ⟨tail, i + byteLength rest, l, k + rest.length⟩) := by
  by_cases hBang : tag = "!"
  · subst hBang
    have hChars : tagChars ['!'] = "%21".toList := by
      rw [tagChars_eq]
      decide
    have hUnescape := unescapeTag_tagChars ['!'] (by decide)
    rw [hChars] at hUnescape
    refine ⟨"<%21>".toList, ?_, fun i l k => ?_⟩
    · change "!<".toList ++ tagChars ['!'] ++ ['>'] = _
      rw [hChars]
      rfl
    · have hUri : ("%21>".toList ++ tail).takeWhile (isTagChar true) = "%21".toList := rfl
      have hStart : (⟨"<%21>".toList ++ tail, i, l, k⟩ : Cursor).peek? = some '<' := rfl
      have hOpen : Cursor.advance ⟨"<%21>".toList ++ tail, i, l, k⟩ 1 =
          ⟨"%21>".toList ++ tail, i + 1, l, k + 1⟩ := rfl
      have hBehind : Cursor.advance ⟨"%21>".toList ++ tail, i + 1, l, k + 1⟩ "%21".toList.length =
          ⟨'>' :: tail, i + 4, l, k + 4⟩ := rfl
      simp only [scanTag, hStart, if_true, hOpen, hUri, hBehind, hUnescape, bind, Except.bind]
      have hClosed : ("%21".toList.isEmpty ||
          Cursor.peek? ⟨'>' :: tail, i + 4, l, k + 4⟩ != some '>') = false := rfl
      simp only [hClosed, Bool.false_eq_true, if_false, pure, Except.pure, Cursor.advance_one,
        hTail, Bool.true_or, if_true]
      have hToken : tagToken "!" = .tag "" (['!'].flatMap String.utf8EncodeChar) := by
        rw [tagToken, if_pos rfl]
        exact congrArg (Token.tag "") (toUTF8_toList_ofList ['!'])
      rw [hToken]
      rfl
  · simp only [keepsTag, Bool.and_eq_true, Bool.not_eq_true', Bool.or_eq_true, beq_iff_eq,
      hBang, false_or, bne_iff_ne, ne_eq, List.any_eq_false] at hKeeps
    obtain ⟨hMarks, hHead⟩ := hKeeps
    have hChars : tag.toList ≠ [] := by simpa using hNonempty
    refine ⟨tagChars tag.toList, ?_, fun i l k => ?_⟩
    · rw [tagText]
      split
      · rename_i hText
        exact absurd (by rw [hText]; rfl) hHead
      · rename_i r _ hText
        exact absurd (by rw [hText]; rfl) hHead
      · rfl
    · have hBytes := toUTF8_toList_ofList tag.toList
      rw [String.ofList_toList] at hBytes
      rw [scanTag_tagChars hChars hNul (fun c hc => by simpa using hMarks c hc) hTail, tagToken,
        if_neg hBang, hBytes]

/-! ### Local tags -/

/-- The bytes of a tag once its handle is resolved. -/
def tagBytes (tag : String) : TagBytes :=
  if tag = "!" then "!".toUTF8.toList else "!".toUTF8.toList ++ tag.toUTF8.toList

theorem fromUTF8?_flatMap (cs : List Char) :
    String.fromUTF8? ⟨(cs.flatMap String.utf8EncodeChar).toArray⟩ = some (String.ofList cs) := by
  have hBytes : (⟨(cs.flatMap String.utf8EncodeChar).toArray⟩ : ByteArray) =
      (String.ofList cs).toUTF8 := by
    rw [← toUTF8_toList_ofList, toList_eq_data_toList]
  rw [hBytes, Text.fromUTF8?_toUTF8]

theorem tagBytes_eq (tag : String) : tagBytes tag =
    (if tag = "!" then ['!'] else '!' :: tag.toList).flatMap String.utf8EncodeChar := by
  have hBang : "!".toUTF8.toList = ['!'].flatMap String.utf8EncodeChar := toUTF8_toList_ofList ['!']
  have hBytes := toUTF8_toList_ofList tag.toList
  rw [String.ofList_toList] at hBytes
  unfold tagBytes
  split
  · exact hBang
  · rw [hBang, hBytes, ← List.flatMap_append]
    rfl

/-- The bytes of a written tag begin with an exclamation mark. -/
theorem isLocal_tagBytes (tag : String) : Node.isLocal (tagBytes tag) = true := by
  have hBang : "!".toUTF8.toList = ['!'.toUInt8] := toUTF8_toList_ofList ['!']
  unfold tagBytes Node.isLocal
  split <;> rw [hBang] <;> rfl

/-- The local name in the bytes of a written tag is the tag. -/
theorem localTag?_tagBytes {tag : String} (hNonempty : tag ≠ "") (hKeeps : keepsTag tag = true) :
    Node.localTag? (tagBytes tag) = some tag := by
  rw [tagBytes_eq, Node.localTag?, fromUTF8?_flatMap, Option.bind_some, String.toList_ofList]
  by_cases hBang : tag = "!"
  · rw [if_pos hBang, hBang]
    rfl
  · rw [if_neg hBang]
    simp only [keepsTag, Bool.and_eq_true, Bool.or_eq_true, beq_iff_eq, hBang, false_or,
      bne_iff_ne, ne_eq] at hKeeps
    obtain ⟨c, r, hText⟩ :=
      List.exists_cons_of_ne_nil (show tag.toList ≠ [] by simpa using hNonempty)
    have hc : c ≠ '!' := by
      rintro rfl
      exact hKeeps.2 (by rw [hText]; rfl)
    have hTag : tag = String.ofList (c :: r) := by rw [← hText, String.ofList_toList]
    rw [hText]
    split
    · rename_i hEq
      simp at hEq
    · rename_i hEq
      simp only [List.cons.injEq] at hEq
      exact absurd hEq.2.1 hc
    · rename_i q _ _ hEq
      rw [hTag, (List.cons.inj hEq).2]
    · rename_i hNot
      exact absurd rfl (hNot _)

end KubeCompose.Yaml
