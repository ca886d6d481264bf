import KubeCompose.Proofs.RoundTrip.Render

/-!
# The characters of a written document

All characters that are written may stand in a text that is read: what is not printable is written
as an escape.
-/

namespace KubeCompose.Yaml

open Number (decimalInt hexadecimal isDigit)

theorem isReadable_of_isPrintable {c : Char} (h : isPrintable c = true) : isReadable c = true := by
  simp only [isPrintable, isReadable, Bool.or_eq_true, Bool.and_eq_true, beq_iff_eq,
    decide_eq_true_eq, bne_iff_ne, ne_eq] at h ⊢
  omega

/-- A text of characters that may be written as themselves. -/
def Printable (cs : List Char) : Prop := ∀ c ∈ cs, isPrintable c = true

instance (cs : List Char) : Decidable (Printable cs) :=
  inferInstanceAs (Decidable (∀ c ∈ cs, isPrintable c = true))

namespace Printable

variable {cs ds : List Char}

theorem nil : Printable [] := by simp [Printable]

theorem cons {c : Char} (hc : isPrintable c = true) (h : Printable cs) : Printable (c :: cs) :=
  List.forall_mem_cons.2 ⟨hc, h⟩

theorem append (h : Printable cs) (h' : Printable ds) : Printable (cs ++ ds) :=
  List.forall_mem_append.2 ⟨h, h'⟩

theorem flatMap {α : Type} {f : α → List Char} {l : List α} (h : ∀ a ∈ l, Printable (f a)) :
    Printable (l.flatMap f) := by
  intro c hc
  obtain ⟨a, ha, hc⟩ := List.mem_flatMap.1 hc
  exact h a ha c hc

theorem spaces (n : Nat) : Printable (Yaml.spaces n) := by
  intro c hc
  rw [(List.mem_replicate.1 hc).2]
  rfl

theorem endLine (h : Printable cs) : Printable (endLine cs) := by
  rw [Yaml.endLine]
  split
  · exact h
  · exact h.append (by decide)

theorem indented {blocks : List (List Char)} (m : Nat) (h : ∀ b ∈ blocks, Printable b) :
    Printable (indented m blocks) := by
  induction blocks with
  | nil => exact .nil
  | cons b bs ih =>
    obtain ⟨hb, hbs⟩ := List.forall_mem_cons.1 h
    cases bs with
    | nil =>
      rw [indented_singleton]
      exact hb
    | cons d ds =>
      rw [indented_cons_cons]
      exact hb.append ((Printable.spaces m).append (ih hbs))

end Printable

/-! ### Texts -/

theorem printable_hexadecimal (width n : Nat) : Printable (hexadecimal width n) := by
  intro c hc
  obtain ⟨d, hd, rfl⟩ := Number.hexadecimal_mem hc
  have hAll : ∀ d < 16, isPrintable d.digitChar.toUpper = true := by decide
  exact hAll d hd

theorem printable_escape (c : Char) : Printable (escape c) := by
  unfold escape
  refine .cons rfl ?_
  have hHexadecimal := fun width => printable_hexadecimal width c.toNat
  split
  case h_16 =>
    split
    · exact .cons rfl (hHexadecimal 2)
    · split
      · exact .cons rfl (hHexadecimal 4)
      · exact .cons rfl (hHexadecimal 8)
  all_goals decide

theorem printable_doubleQuoted (cs : List Char) : Printable (doubleQuoted cs) := by
  refine .cons rfl (.append (.flatMap fun c _ => ?_) (by decide))
  split
  · exact printable_escape c
  · rename_i hPlain
    simp only [Bool.or_eq_true, not_or, Bool.not_eq_true', Bool.not_eq_false] at hPlain
    exact .cons hPlain.1.1.1 .nil

theorem printable_singleInner (m : Nat) (start : Bool) {cs : List Char} (h : Printable cs) :
    Printable (singleInner m start cs) := by
  induction cs generalizing start with
  | nil =>
    rw [singleInner]
    split
    · exact .spaces m
    · exact .nil
  | cons c cs ih =>
    obtain ⟨hc, h⟩ := List.forall_mem_cons.1 h
    rw [singleInner]
    split
    · exact .cons hc (ih _ h)
    · refine .append (.append ?_ ?_) (ih _ h)
      · split
        · exact .spaces m
        · exact .nil
      · split
        · decide
        · exact .cons hc .nil

theorem printable_literalLines (m : Nat) (start : Bool) {cs : List Char} (h : Printable cs) :
    Printable (literalLines m start cs) := by
  induction cs generalizing start with
  | nil => exact .nil
  | cons c cs ih =>
    obtain ⟨hc, h⟩ := List.forall_mem_cons.1 h
    rw [literalLines]
    split
    · exact .cons hc (ih _ h)
    · refine .append ?_ (.cons hc (ih _ h))
      split
      · exact .spaces m
      · exact .nil

theorem printable_literalHints (cs : List Char) : Printable (literalHints cs) := by
  unfold literalHints
  dsimp only
  refine .append ?_ ?_
  · split <;> decide
  · split
    · split
      · decide
      · split <;> decide
    · split <;> decide
    · decide

/-- A text that is not in double quotes is printable. -/
theorem printable_of_styleOf {s : String} (h : styleOf s ≠ .double) : Printable s.toList := by
  unfold styleOf at h
  dsimp only at h
  split at h
  · split at h
    · rename_i hLiteral
      simp only [allowsLiteral, Bool.and_eq_true, List.all_eq_true] at hLiteral
      exact hLiteral.1.1.2
    · exact absurd rfl h
  · split at h
    · rename_i hPlain
      simp only [allowsPlain, allowsSingle, Bool.and_eq_true, List.all_eq_true] at hPlain
      exact hPlain.2.1.1.1.1.1.1
    · split at h
      · rename_i hSingle
        simp only [allowsSingle, Bool.and_eq_true, List.all_eq_true] at hSingle
        exact hSingle.1.1
      · exact absurd rfl h

theorem printable_textLines (m : Nat) (s : String) : Printable (textLines m s) := by
  have h := printable_of_styleOf (s := s)
  unfold textLines
  dsimp only
  split
  · rename_i hStyle
    exact h (by simp [hStyle])
  · rename_i hStyle
    exact .cons rfl (.append (printable_singleInner m false (h (by simp [hStyle]))) (by decide))
  · exact printable_doubleQuoted _
  · rename_i hStyle
    exact .cons rfl (.append (printable_literalHints _)
      (.cons rfl (printable_literalLines m true (h (by simp [hStyle])))))

/-! ### Numbers -/

theorem isPrintable_of_isNumberChar {c : Char} (h : isNumberChar c = true) :
    isPrintable c = true := by
  have hDigit : ∀ d < 10, isPrintable d.digitChar = true := by decide
  simp only [isNumberChar, Bool.or_eq_true, beq_iff_eq] at h
  rcases h with ((h | rfl) | rfl) | rfl
  · obtain ⟨d, hd, rfl⟩ := Number.exists_digitChar h
    exact hDigit d hd
  all_goals decide

theorem SpellsNumber.printable {sign r : List Char} {d : Char} (h : SpellsNumber sign d r) :
    Printable (sign ++ d :: r) := fun c hc => isPrintable_of_isNumberChar (h.isNumberChar c hc)

theorem printable_leafLines? {m : Nat} {v : Yaml} {lines : List Char}
    (h : leafLines? m v = some lines) : Printable lines := by
  unfold leafLines? at h
  split at h
  · rw [← Option.some.inj h]; decide
  · rw [← Option.some.inj h]; decide
  · rw [← Option.some.inj h]; decide
  · rename_i n
    obtain ⟨sign, d, r, hText, hSpells⟩ := exists_decimalInt n
    rw [← Option.some.inj h, hText]
    exact hSpells.printable
  · rename_i x
    rw [← Option.some.inj h]
    cases x with
    | nan => decide
    | infinite negative => cases negative <;> decide
    | finite negative significand exponent =>
      obtain ⟨sign, d, r, hText, hSpells⟩ := exists_finite negative significand exponent
      rw [hText]
      exact hSpells.printable
  · rw [← Option.some.inj h]
    exact printable_textLines m _
  · rw [← Option.some.inj h]; decide
  · rw [← Option.some.inj h]; decide
  · cases h

/-! ### Nodes -/

theorem isPrintable_of_isPlainTagChar {c : Char} (h : isPlainTagChar c = true) :
    isPrintable c = true := by
  have hMarks : ∀ d ∈ ";/?:@&=+$,.~*'()[]".toList, isPrintable d = true := by decide
  simp only [isPlainTagChar, Bool.or_eq_true, List.contains_iff_mem] at h
  rcases h with h | h
  · simp only [isWordChar, Bool.or_eq_true, beq_iff_eq] at h
    rcases h with (h | rfl) | rfl
    · have hRange : 32 ≤ c.toNat ∧ c.toNat ≤ 126 := by
        delta Char.isAlphanum Char.isAlpha Char.isUpper Char.isLower Char.isDigit at h
        simp only [Bool.or_eq_true, Bool.and_eq_true, decide_eq_true_eq, ge_iff_le,
          UInt32.le_iff_toNat_le] at h
        have hBounds : 'A'.val.toNat = 65 ∧ 'Z'.val.toNat = 90 ∧ 'a'.val.toNat = 97 ∧
          'z'.val.toNat = 122 ∧ '0'.val.toNat = 48 ∧ '9'.val.toNat = 57 := by decide
        have hChar : c.toNat = c.val.toNat := rfl
        omega
      simp [isPrintable, hRange]
    all_goals decide
  · exact hMarks c h

theorem printable_tagChars (cs : List Char) : Printable (tagChars cs) := by
  refine .flatMap fun c _ => ?_
  split
  · rename_i hPlain
    exact .cons (isPrintable_of_isPlainTagChar hPlain) .nil
  · exact .flatMap fun b _ => .cons rfl (printable_hexadecimal 2 _)

theorem printable_tagText (tag : String) : Printable (tagText tag) := by
  unfold tagText
  split
  · exact ((Printable.cons rfl (.cons rfl .nil)).append (printable_tagChars _)).append (by decide)
  · exact .cons rfl (printable_tagChars _)
  · exact .cons rfl (printable_tagChars _)

section Places

variable (place : Place) (tag : Option String)

theorem printable_gap : Printable place.gap := by
  unfold Place.gap
  split <;> decide

theorem printable_tag : Printable (place.tag tag) := by
  cases tag with
  | none => exact .nil
  | some t => exact (printable_gap place).append (printable_tagText t)

theorem printable_opening (m : Nat) : Printable (place.opening tag m) := by
  refine (printable_tag place tag).append ?_
  split
  · exact printable_gap place
  · exact .cons rfl (.spaces m)

theorem printable_leaf {lines : List Char} (h : Printable lines) :
    Printable (place.leaf tag lines) := by
  refine .endLine (((printable_tag place tag).append ?_).append h)
  split
  · decide
  · exact printable_gap place

end Places

theorem printable_getD_leafLines? (m : Nat) (v : Yaml) : Printable ((leafLines? m v).getD []) := by
  cases h : leafLines? m v with
  | none => exact .nil
  | some lines => exact printable_leafLines? h

theorem printable_simpleKeyText : (k : Yaml) → Printable (simpleKeyText k)
  | .tagged t v => (printable_tagText t).append (.cons rfl (printable_simpleKeyText v))
  | .null | .bool _ | .int _ | .float _ | .str _ | .seq _ | .map _ => printable_getD_leafLines? _ _

mutual

/-- A node is written in printable characters. -/
theorem printable_nodeLines (place : Place) (tag : Option String) (n : Nat) :
    (v : Yaml) → Printable (nodeLines place tag n v)
  | .tagged t v => by
    rw [nodeLines]
    exact printable_nodeLines place (some t) n v
  | .seq (x :: xs) => by
    rw [nodeLines]
    exact (printable_opening place tag _).append (.indented _ (printable_itemBlocks _ (x :: xs)))
  | .map (e :: es) => by
    rw [nodeLines]
    exact (printable_opening place tag _).append (.indented _ (printable_entryBlocks _ (e :: es)))
  | .null | .bool _ | .int _ | .float _ | .str _ | .seq [] | .map [] =>
    printable_leaf place tag (printable_getD_leafLines? _ _)

theorem printable_itemBlocks (m : Nat) : (xs : List Yaml) → ∀ b ∈ itemBlocks m xs, Printable b
  | [] => by simp [itemBlocks]
  | x :: xs => by
    rw [itemBlocks]
    exact List.forall_mem_cons.2
      ⟨.cons rfl (printable_nodeLines .item none m x), printable_itemBlocks m xs⟩

theorem printable_entryBlocks (m : Nat) :
    (es : List (Yaml × Yaml)) → ∀ b ∈ entryBlocks m es, Printable b
  | [] => by simp [entryBlocks]
  | (k, v) :: es => by
    rw [entryBlocks]
    refine List.forall_mem_cons.2
      ⟨.append ?_ (printable_nodeLines (valuePlace k) none m v), printable_entryBlocks m es⟩
    rw [keyLines]
    split
    · exact (printable_simpleKeyText k).append (by decide)
    · exact .cons rfl
        (((printable_nodeLines .marked none m k).append (.spaces m)).append (by decide))

end

end KubeCompose.Yaml
