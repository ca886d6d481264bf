import KubeCompose.PortMapping
import KubeCompose.Proofs.RoundTrip.Digits
import KubeCompose.Proofs.Substitution

/-!
# Ports as they are written

A port is a number, a short text or a mapping of values, and each of them is read by way of one
reader of numbers. `ShortForm` says what a short text is without that reader: a container port, in
front of it perhaps a published port, and in front of both perhaps an address. A port is understood
when it has the form it is written in, and two ways to write the same are read alike.
-/

namespace KubeCompose

namespace PortMapping

open Compose (Port)
open Number (decimal decimalInt isDigit readDigits?_ten_eq_some_iff twoTo)
open Text (before isBlank splitOn trim trimEnd trimStart)

/-! ### What a port is written as -/

/-- A decimal number, with an optional plus sign. -/
inductive Numeral : List Char → Nat → Prop
  | plain {digits : List Char} (hNonempty : digits ≠ [])
    (hDigits : ∀ c ∈ digits, isDigit c = true) : Numeral digits (Nat.ofDigitChars 10 digits 0)
  | signed {digits : List Char} (hNonempty : digits ≠ [])
    (hDigits : ∀ c ∈ digits, isDigit c = true) :
    Numeral ('+' :: digits) (Nat.ofDigitChars 10 digits 0)

/-- A part of a text that gives a port: what stands before its first dash is, once the part is
trimmed, the number of the port. -/
structure IsPort (part : List Char) (n : Nat) : Prop where
  numeral : Numeral (before '-' (trim part)) n
  positive : 1 ≤ n
  le_last : n ≤ 65535

/-- What a part that need not give a port says about one. -/
def Gives (part : List Char) : Option Nat → Prop
  | some n => IsPort part n
  | none => ∀ n, ¬ IsPort part n

/-- A short text and what it says, but for the white space around it and what follows its first
slash: a container port, a published port in front of it, and an address in front of both. -/
inductive ShortForm : List Char → PortMapping → Prop
  | target {target : List Char} {t : Nat} (hTarget : ':' ∉ target) (hPort : IsPort target t) :
    ShortForm target ⟨none, t, false⟩
  | published {published target : List Char} {p : Option Nat} {t : Nat}
    (hPublished : ':' ∉ published) (hTarget : ':' ∉ target) (hGives : Gives published p)
    (hPort : IsPort target t) : ShortForm (published ++ ':' :: target) ⟨p, t, false⟩
  | addressed {address published target : List Char} {p : Option Nat} {t : Nat}
    (hAddress : ':' ∉ address) (hPublished : ':' ∉ published) (hTarget : ':' ∉ target)
    (hGives : Gives published p) (hPort : IsPort target t) :
    ShortForm (address ++ ':' :: (published ++ ':' :: target)) ⟨p, t, false⟩

variable {vars : DotEnv} {cs part : List Char} {n : Nat} {m : PortMapping} {p : Port}

theorem readNumber?_eq_some_iff : readNumber? cs = some n ↔ Numeral cs n := by
  constructor
  · intro h
    unfold readNumber? at h
    split at h
    · obtain ⟨hNonempty, hDigits, rfl⟩ := readDigits?_ten_eq_some_iff.1 h
      exact .signed hNonempty hDigits
    · obtain ⟨hNonempty, hDigits, rfl⟩ := readDigits?_ten_eq_some_iff.1 h
      exact .plain hNonempty hDigits
  · intro h
    cases h with
    | plain hNonempty hDigits =>
      unfold readNumber?
      split
      · exact absurd (hDigits '+' List.mem_cons_self) (by decide)
      · exact readDigits?_ten_eq_some_iff.2 ⟨hNonempty, hDigits, rfl⟩
    | signed hNonempty hDigits =>
      exact readDigits?_ten_eq_some_iff.2 ⟨hNonempty, hDigits, rfl⟩

theorem inRange?_eq_some_iff {k : Nat} : inRange? n = some k ↔ n = k ∧ 1 ≤ k ∧ k ≤ 65535 := by
  have hLast : twoTo 16 = 65536 := by decide
  rw [inRange?, hLast]
  split
  · rw [Option.some.injEq]
    omega
  · simp only [reduceCtorEq, false_iff]
    omega

theorem readPort?_eq_some_iff : readPort? part = some n ↔ IsPort part n := by
  rw [readPort?, Option.bind_eq_some_iff]
  constructor
  · rintro ⟨k, hNumber, hRange⟩
    obtain ⟨rfl, hPos, hLe⟩ := inRange?_eq_some_iff.1 hRange
    exact ⟨readNumber?_eq_some_iff.1 hNumber, hPos, hLe⟩
  · intro h
    exact ⟨n, readNumber?_eq_some_iff.2 h.numeral,
      inRange?_eq_some_iff.2 ⟨rfl, h.positive, h.le_last⟩⟩

theorem readPort?_eq_iff {o : Option Nat} : readPort? part = o ↔ Gives part o := by
  cases o with
  | some n => exact readPort?_eq_some_iff
  | none =>
    rw [Option.eq_none_iff_forall_ne_some]
    exact forall_congr' fun n => not_congr readPort?_eq_some_iff

/-- A short text is understood when it has the short form, as that form says. -/
theorem readShort?_eq_some_iff :
    readShort? cs = some m ↔ ShortForm (before '/' (trim cs)) m := by
  generalize hText : before '/' (trim cs) = text
  rw [readShort?, hText]
  constructor
  · intro h
    split at h
    all_goals rename_i hSplit
    · obtain ⟨t, hPort, rfl⟩ := Option.map_eq_some_iff.1 h
      obtain ⟨hColon, rfl⟩ := (Text.splitOn_eq_iff (by simp)).1 hSplit
      rw [List.forall_mem_singleton] at hColon
      rw [List.intercalate_singleton]
      exact .target hColon (readPort?_eq_some_iff.1 hPort)
    · obtain ⟨t, hPort, rfl⟩ := Option.map_eq_some_iff.1 h
      obtain ⟨hColon, rfl⟩ := (Text.splitOn_eq_iff (by simp)).1 hSplit
      rw [List.forall_mem_cons, List.forall_mem_singleton] at hColon
      have hForm := ShortForm.published hColon.1 hColon.2 (readPort?_eq_iff.1 rfl)
        (readPort?_eq_some_iff.1 hPort)
      simpa [List.intercalate_cons_cons] using hForm
    · obtain ⟨t, hPort, rfl⟩ := Option.map_eq_some_iff.1 h
      obtain ⟨hColon, rfl⟩ := (Text.splitOn_eq_iff (by simp)).1 hSplit
      rw [List.forall_mem_cons, List.forall_mem_cons, List.forall_mem_singleton] at hColon
      have hForm := ShortForm.addressed hColon.1 hColon.2.1 hColon.2.2 (readPort?_eq_iff.1 rfl)
        (readPort?_eq_some_iff.1 hPort)
      simpa [List.intercalate_cons_cons] using hForm
    · cases h
  · intro h
    cases h with
    | target hTarget hPort =>
      rw [Text.splitOn_eq_singleton hTarget]
      simp only [readPort?_eq_some_iff.2 hPort, Option.map_some]
    | published hPublished hTarget hGives hPort =>
      rw [Text.splitOn_append_sep, Text.splitOn_eq_singleton hPublished,
        Text.splitOn_eq_singleton hTarget]
      simp only [List.singleton_append, readPort?_eq_iff.2 hGives, readPort?_eq_some_iff.2 hPort,
        Option.map_some]
    | addressed hAddress hPublished hTarget hGives hPort =>
      rw [Text.splitOn_append_sep, Text.splitOn_append_sep, Text.splitOn_eq_singleton hAddress,
        Text.splitOn_eq_singleton hPublished, Text.splitOn_eq_singleton hTarget]
      simp only [List.singleton_append, readPort?_eq_iff.2 hGives, readPort?_eq_some_iff.2 hPort,
        Option.map_some]

/-! ### What is read -/

/-- The ports of a mapping are ports, and one that stands for a port that was not understood has the
fallback port alone. -/
structure Sound (m : PortMapping) : Prop where
  target : 1 ≤ m.target ∧ m.target ≤ 65535
  published : ∀ n ∈ m.published, 1 ≤ n ∧ n ≤ 65535
  fallback : m.fallback = true → m.published = none ∧ m.target = 8080

theorem bounds_of_readPort? (h : readPort? part = some n) : 1 ≤ n ∧ n ≤ 65535 :=
  have hPort := readPort?_eq_some_iff.1 h
  ⟨hPort.positive, hPort.le_last⟩

theorem sound_unknown : Sound unknown := by
  refine ⟨by decide, ?_, fun _ => ⟨rfl, rfl⟩⟩
  simp [unknown]

/-- A mapping of ports that were read. -/
theorem sound_of_read {published : Option Nat} (hTarget : 1 ≤ n ∧ n ≤ 65535)
    (hPublished : ∀ k ∈ published, 1 ≤ k ∧ k ≤ 65535) : Sound ⟨published, n, false⟩ :=
  ⟨hTarget, hPublished, fun h => by simp at h⟩

theorem ShortForm.sound (h : ShortForm cs m) : Sound m ∧ m.isDeclared = true := by
  have hGiven : ∀ {part : List Char} {o : Option Nat}, Gives part o →
      ∀ k ∈ o, 1 ≤ k ∧ k ≤ 65535 := by
    rintro part o hGives k hk
    obtain rfl := Option.mem_def.1 hk
    exact ⟨hGives.positive, hGives.le_last⟩
  cases h with
  | target _ hPort => exact ⟨sound_of_read ⟨hPort.positive, hPort.le_last⟩ (by simp), rfl⟩
  | published _ _ hGives hPort | addressed _ _ _ hGives hPort =>
    exact ⟨sound_of_read ⟨hPort.positive, hPort.le_last⟩ (hGiven hGives), rfl⟩

theorem sound_of_ofPort? (h : ofPort? vars p = some m) : Sound m ∧ m.isDeclared = true := by
  cases p with
  | number k =>
    obtain ⟨t, hRange, rfl⟩ := Option.map_eq_some_iff.1 h
    exact ⟨sound_of_read (inRange?_eq_some_iff.1 hRange).2 (by simp), rfl⟩
  | short text => exact (readShort?_eq_some_iff.1 h).sound
  | long target published protocol =>
    obtain ⟨v, -, h⟩ := Option.bind_eq_some_iff.1 h
    obtain ⟨t, hTarget, h⟩ := Option.bind_eq_some_iff.1 h
    obtain rfl := Option.some.inj h
    refine ⟨sound_of_read (bounds_of_readPort? hTarget) ?_, rfl⟩
    intro k hk
    obtain ⟨w, -, hPublished⟩ := Option.bind_eq_some_iff.1 hk
    exact bounds_of_readPort? hPublished

theorem sound_ofPort (vars : DotEnv) (p : Port) : Sound (ofPort vars p) := by
  rw [ofPort]
  cases h : ofPort? vars p with
  | none => exact sound_unknown
  | some m => exact (sound_of_ofPort? h).1

/-- A port is understood when it gives a mapping that is no fallback. -/
theorem ofPort_declared_iff :
    ofPort vars p = m ∧ m.isDeclared = true ↔ ofPort? vars p = some m := by
  rw [ofPort]
  constructor
  · rintro ⟨rfl, hDeclared⟩
    cases h : ofPort? vars p with
    | none =>
      rw [h, Option.getD_none] at hDeclared
      cases hDeclared
    | some m => rfl
  · intro h
    rw [h]
    exact ⟨rfl, (sound_of_ofPort? h).2⟩

/-! ### Three ways to write a port -/

theorem readPort?_trimStart (cs : List Char) : readPort? (trimStart cs) = readPort? cs := by
  rw [readPort?, Text.trim_trimStart, ← readPort?]

theorem readPort?_trimEnd (cs : List Char) : readPort? (trimEnd cs) = readPort? cs := by
  rw [readPort?, Text.trim_trimEnd, ← readPort?]

/-- A text in which no mark of a short text stands, nor one of a reference. -/
def Unmarked (text : String) : Prop := ∀ c ∈ text.toList, c ≠ '$' ∧ c ≠ ':' ∧ c ≠ '/'

theorem Unmarked.notMem {text : String} (h : Unmarked text) :
    '$' ∉ text.toList ∧ ':' ∉ text.toList ∧ '/' ∉ text.toList :=
  ⟨fun hc => (h _ hc).1 rfl, fun hc => (h _ hc).2.1 rfl, fun hc => (h _ hc).2.2 rfl⟩

theorem readShort?_target {text : String} (h : Unmarked text) :
    readShort? text.toList = (readPort? text.toList).map fun t => ⟨none, t, false⟩ := by
  have hSlash : '/' ∉ trim text.toList := fun hc => h.notMem.2.2 (Text.mem_of_mem_trim hc)
  have hColon : ':' ∉ trim text.toList := fun hc => h.notMem.2.1 (Text.mem_of_mem_trim hc)
  rw [readShort?, Text.before_eq_self hSlash, Text.splitOn_eq_singleton hColon, trim]
  simp only [readPort?_trimEnd, readPort?_trimStart]

theorem readShort?_published {published target : String} (hPublished : Unmarked published)
    (hTarget : Unmarked target) :
    readShort? (published.toList ++ ':' :: target.toList) =
      (readPort? target.toList).map fun t => ⟨readPort? published.toList, t, false⟩ := by
  have hFront : '/' ∉ trimStart published.toList ∧ ':' ∉ trimStart published.toList :=
    ⟨fun hc => hPublished.notMem.2.2 (Text.mem_of_mem_trimStart hc),
      fun hc => hPublished.notMem.2.1 (Text.mem_of_mem_trimStart hc)⟩
  have hBehind : '/' ∉ trimEnd target.toList ∧ ':' ∉ trimEnd target.toList :=
    ⟨fun hc => hTarget.notMem.2.2 (Text.mem_of_mem_trimEnd hc),
      fun hc => hTarget.notMem.2.1 (Text.mem_of_mem_trimEnd hc)⟩
  have hSlash : '/' ∉ trimStart published.toList ++ ':' :: trimEnd target.toList := by
    simp [hFront.1, hBehind.1]
  rw [readShort?, Text.trim_append_cons (by decide), Text.before_eq_self hSlash,
    Text.splitOn_append_sep, Text.splitOn_eq_singleton hFront.2,
    Text.splitOn_eq_singleton hBehind.2]
  simp only [List.singleton_append, readPort?_trimStart, readPort?_trimEnd]

theorem ofPort?_long (vars : DotEnv) (target : Yaml) (published : Option Yaml)
    (protocol : Option String) :
    ofPort? vars (.long (some target) published protocol) =
      (readValue? vars target).map fun t => ⟨published.bind (readValue? vars), t, false⟩ := by
  show ((readValue? vars target).bind fun t => some _) = _
  rw [Option.map_eq_bind]
  rfl

theorem readValue?_str (vars : DotEnv) {text : String} (h : Unmarked text) :
    readValue? vars (.str text) = readPort? text.toList := by
  rw [readValue?, Yaml.plainText, vars.substitute_eq_self h.notMem.1]

/-- Two texts with a colon between them are read as the two values of a mapping. -/
theorem ofPort_published (vars : DotEnv) {published target : String}
    (hPublished : Unmarked published) (hTarget : Unmarked target) (protocol : Option String) :
    ofPort vars (.short (published ++ ":" ++ target)) =
      ofPort vars (.long (some (.str target)) (some (.str published)) protocol) := by
  have hDollar : '$' ∉ (published ++ ":" ++ target).toList := by
    simp [hPublished.notMem.1, hTarget.notMem.1]
  have hText : (published ++ ":" ++ target).toList = published.toList ++ ':' :: target.toList := by
    simp
  rw [ofPort, ofPort, ofPort?_long, ofPort?, vars.substitute_eq_self hDollar, hText,
    readShort?_published hPublished hTarget, readValue?_str vars hTarget, Option.bind_some,
    readValue?_str vars hPublished]

/-- A text is read as the only value of a mapping. -/
theorem ofPort_target (vars : DotEnv) {target : String} (hTarget : Unmarked target)
    (protocol : Option String) :
    ofPort vars (.short target) = ofPort vars (.long (some (.str target)) none protocol) := by
  rw [ofPort, ofPort, ofPort?_long, ofPort?, vars.substitute_eq_self hTarget.notMem.1,
    readShort?_target hTarget, readValue?_str vars hTarget, Option.bind_none]

/-! ### Numbers -/

theorem unmarked_of_digits {text : String}
    (h : ∀ c ∈ text.toList, c = '-' ∨ isDigit c = true) : Unmarked text := by
  intro c hc
  rcases h c hc with rfl | hDigit
  · decide
  · refine ⟨?_, ?_, ?_⟩ <;> rintro rfl <;> exact absurd hDigit (by decide)

theorem mem_decimalInt {k : Int} {c : Char} (h : c ∈ (decimalInt k).toList) :
    c = '-' ∨ isDigit c = true := by
  cases k with
  | ofNat k =>
    rw [decimalInt, decimal, String.toList_ofList] at h
    exact .inr (Number.isDigit_of_mem_toDigits h)
  | negSucc k =>
    simp only [decimalInt, decimal, String.toList_append, String.toList_ofList,
      List.mem_append] at h
    rcases h with h | h
    · exact .inl (by simpa using h)
    · exact .inr (Number.isDigit_of_mem_toDigits h)

theorem trim_eq_self_of_digits (h : ∀ c ∈ cs, c = '-' ∨ isDigit c = true) : trim cs = cs := by
  have hBlank : ∀ c ∈ cs, isBlank c = false := by
    intro c hc
    rcases h c hc with rfl | hDigit
    · decide
    · obtain ⟨d, hd, rfl⟩ := Number.exists_digitChar hDigit
      exact (by decide : ∀ d < 10, isBlank d.digitChar = false) d hd
  apply Text.trim_eq_self
  · exact fun c hc => hBlank c (List.mem_of_head? hc)
  · exact fun c hc => hBlank c (List.mem_of_getLast? hc)

/-- The text of a number is read as the number, and not at all when it is negative. -/
theorem readPort?_decimalInt (k : Int) : readPort? (decimalInt k).toList = inRange? k.toNat := by
  rw [readPort?, trim_eq_self_of_digits fun c hc => mem_decimalInt hc]
  cases k with
  | ofNat k =>
    have hDigits : ∀ c ∈ Nat.toDigits 10 k, isDigit c = true := fun c hc =>
      Number.isDigit_of_mem_toDigits hc
    have hDash : '-' ∉ Nat.toDigits 10 k := fun hc => absurd (hDigits _ hc) (by decide)
    have hNumber : readNumber? (Nat.toDigits 10 k) = some k := by
      have hNumeral := Numeral.plain Nat.toDigits_ne_nil hDigits
      rw [Nat.ofDigitChars_ten_toDigits] at hNumeral
      exact readNumber?_eq_some_iff.2 hNumeral
    rw [decimalInt, decimal, String.toList_ofList, Text.before_eq_self hDash, hNumber]
    rfl
  | negSucc k =>
    have hText : (decimalInt (.negSucc k)).toList = '-' :: (decimal (k + 1)).toList := by
      simp [decimalInt]
    rw [hText]
    rfl

/-- A number is read as its text is. -/
theorem ofPort_number (vars : DotEnv) (k : Int) :
    ofPort vars (.number k) = ofPort vars (.short (decimalInt k)) := by
  have hMarks : Unmarked (decimalInt k) := unmarked_of_digits fun c hc => mem_decimalInt hc
  rw [ofPort, ofPort, ofPort?, ofPort?, vars.substitute_eq_self hMarks.notMem.1,
    readShort?_target hMarks, readPort?_decimalInt]

theorem ofPort_number_eq_long (vars : DotEnv) (k : Int) (protocol : Option String) :
    ofPort vars (.number k) = ofPort vars (.long (some (.int k)) none protocol) := by
  have hMarks : Unmarked (decimalInt k) := unmarked_of_digits fun c hc => mem_decimalInt hc
  rw [ofPort_number, ofPort_target vars hMarks protocol]
  rfl

/-- What is read is sound, and what is not understood is read as the fallback port. A short text is
understood when it has the short form, and as that form says. A text without marks is read alike as
a short text and as the value of a mapping, so are two of them with a colon between them, and a
number is read as its text is. -/
theorem ofPort_follows_form (vars : DotEnv) :
    (∀ p, Sound (ofPort vars p)) ∧
    (∀ text m, ofPort vars (.short text) = m ∧ m.isDeclared = true ↔
      ShortForm (before '/' (trim (vars.substitute text).toList)) m) ∧
    (∀ target protocol, Unmarked target →
      ofPort vars (.short target) = ofPort vars (.long (some (.str target)) none protocol) ∧
      ∀ published, Unmarked published →
        ofPort vars (.short (published ++ ":" ++ target)) =
          ofPort vars (.long (some (.str target)) (some (.str published)) protocol)) ∧
    ∀ k protocol, ofPort vars (.number k) = ofPort vars (.short (decimalInt k)) ∧
      ofPort vars (.number k) = ofPort vars (.long (some (.int k)) none protocol) := by
  refine ⟨sound_ofPort vars, ?_, ?_, ?_⟩
  · intro text m
    rw [ofPort_declared_iff]
    exact readShort?_eq_some_iff
  · intro target protocol hTarget
    refine ⟨ofPort_target vars hTarget protocol, ?_⟩
    intro published hPublished
    exact ofPort_published vars hPublished hTarget protocol
  · intro k protocol
    exact ⟨ofPort_number vars k, ofPort_number_eq_long vars k protocol⟩

/-- A variable that holds a port. -/
def webVariables : DotEnv := [("WEB", " 9090")]

theorem ofPort_follows_form_webVariables :
    ofPort webVariables (.short "127.0.0.1:$\x7bWEB\x7d:+0080-90/udp") = ⟨some 9090, 80, false⟩ ∧
      Unmarked "+0080-90 " ∧ Unmarked " http" ∧
      ofPort webVariables (.short "+0080-90 ") =
        ofPort webVariables (.long (some (.str "+0080-90 ")) none none) ∧
      ofPort webVariables (.short (" http" ++ ":" ++ "+0080-90 ")) =
        ofPort webVariables (.long (some (.str "+0080-90 ")) (some (.str " http")) none) := by
  obtain ⟨-, hShort, hValues, -⟩ := ofPort_follows_form webVariables
  have hText : before '/' (trim
      (webVariables.substitute "127.0.0.1:$\x7bWEB\x7d:+0080-90/udp").toList) =
        "127.0.0.1".toList ++ ':' :: (" 9090".toList ++ ':' :: "+0080-90".toList) := by
    decide +kernel
  have hForm : ShortForm ("127.0.0.1".toList ++ ':' :: (" 9090".toList ++ ':' :: "+0080-90".toList))
      ⟨some 9090, 80, false⟩ :=
    .addressed (by decide) (by decide) (by decide) (readPort?_eq_iff.1 (by decide))
      (readPort?_eq_some_iff.1 (by decide))
  have hTarget : Unmarked "+0080-90 " := by unfold Unmarked; decide
  have hPublished : Unmarked " http" := by unfold Unmarked; decide
  obtain ⟨hSingle, hPair⟩ := hValues "+0080-90 " none hTarget
  exact ⟨((hShort _ _).2 (hText ▸ hForm)).1, hTarget, hPublished, hSingle, hPair _ hPublished⟩

end PortMapping

end KubeCompose
