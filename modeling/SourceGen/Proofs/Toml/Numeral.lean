import SourceGen.Proofs.Toml.Reads

/-! # Integers as they are written

An integer in decimal is read as itself, whatever its size: the word is no name and no date, and its
digits have its value. -/
namespace SourceGen.Toml

theorem isDigit_of_mem_ofNat {n : Nat} {c : Char} (h : c ∈ Text.ofNat n) : c.isDigit = true :=
  Nat.isDigit_of_mem_toDigits (by decide) (by decide) h

theorem digit?_of_isDigit {base : Nat} (hb : 10 ≤ base) {c : Char} (h : c.isDigit = true) :
    digit? base c = some (c.toNat - '0'.toNat) := by
  have hd : '0' ≤ c ∧ c ≤ '9' := by
    rw [Char.isDigit, Bool.and_eq_true, decide_eq_true_eq, decide_eq_true_eq] at h
    exact h
  have hn : c.toNat ≤ '0'.toNat + 9 := hd.2
  have hl : c.toNat - '0'.toNat < base := by omega
  rw [digit?, if_pos (by simpa using hd)]
  exact Option.filter_some_pos (decide_eq_true hl)

theorem digits?_of_isDigit {s : Text} (h : ∀ c ∈ s, c.isDigit = true) :
    digits? 10 s = some (s.map fun c => c.toNat - '0'.toNat) := by
  unfold digits?
  induction s with
  | nil => rfl
  | cons c s ih =>
    obtain ⟨hc, hs⟩ := List.forall_mem_cons.mp h
    rw [List.mapM_cons, digit?_of_isDigit (Nat.le_refl 10) hc, ih hs]
    rfl

/-- The digits of a number have its value. -/
theorem numeral_ofNat (n : Nat) :
    numeral 10 ((Text.ofNat n).map fun c => c.toNat - '0'.toNat) = n := by
  rw [numeral, List.foldl_map]
  exact Nat.ofDigitChars_toDigits (by decide) (by decide)

theorem joined?_of_isDigit {base : Nat} {s : Text} (h : ∀ c ∈ s, c.isDigit = true) (behind : Bool) :
    joined? base behind s = some s := by
  induction s generalizing behind with
  | nil => rfl
  | cons c s ih =>
    obtain ⟨hc, hs⟩ := List.forall_mem_cons.mp h
    have hu : c ≠ '_' := by
      rintro rfl
      cases hc
    rw [joined?, if_neg hu, ih hs]
    rfl

/-- The first digit is no zero if more digits follow. -/
theorem exists_ofNat_eq_cons (n : Nat) :
    ∃ c rest, Text.ofNat n = c :: rest ∧ (c = '0' → rest = []) := by
  induction n using Nat.strongRecOn with
  | ind n ih =>
    by_cases hn : n < 10
    · exact ⟨_, [], Nat.toDigits_of_lt_base hn, fun _ => rfl⟩
    · obtain ⟨c, rest, hc, hz⟩ := ih (n / 10) (by omega)
      have hd : Text.ofNat n = Text.ofNat (n / 10) ++ [(n % 10).digitChar] :=
        Nat.toDigits_of_base_le (by decide) (by omega)
      refine ⟨c, rest ++ [(n % 10).digitChar], by rw [hd, hc, List.cons_append], ?_⟩
      intro h0
      have hv := numeral_ofNat (n / 10)
      rw [hc, hz h0, h0] at hv
      have h00 : numeral 10 (['0'].map fun c => c.toNat - '0'.toNat) = 0 := rfl
      omega

theorem beginsDecimal_ofNat (n : Nat) : beginsDecimal (Text.ofNat n) = true := by
  obtain ⟨c, rest, hc, hz⟩ := exists_ofNat_eq_cons n
  have hd : c.isDigit = true := isDigit_of_mem_ofNat (n := n) (by simp [hc])
  rw [hc]
  unfold beginsDecimal
  split
  · next he =>
    obtain ⟨rfl, rfl⟩ := List.cons.inj he
    cases hz rfl
  · next he =>
    obtain ⟨rfl, rfl⟩ := List.cons.inj he
    exact hd
  · next he => cases he

theorem decimalInteger?_ofNat (negative : Bool) (n : Nat) :
    decimalInteger? negative (Text.ofNat n) = some (some (signed negative n)) := by
  have hd : ∀ c ∈ Text.ofNat n, c.isDigit = true := fun _ => isDigit_of_mem_ofNat
  have ht : (Text.ofNat n).dropWhile Char.isDigit = [] := List.dropWhile_eq_nil_iff.mpr hd
  rw [decimalInteger?, beginsDecimal_ofNat, ht, joined?_of_isDigit hd]
  simp only [isIntegerTail, Bool.and_self, if_true, Option.map_some, digits?_of_isDigit hd,
    numeral_ofNat]

/-- A digit or a minus sign. -/
def isNumeralChar (c : Char) : Bool := c.isDigit || c == '-'

theorem isNumeralChar_of_mem_ofInt {n : Int} {c : Char} (h : c ∈ Text.ofInt n) :
    isNumeralChar c = true := by
  cases n with
  | ofNat n => simp [isNumeralChar, isDigit_of_mem_ofNat (n := n) h]
  | negSucc n =>
    rcases List.mem_cons.mp h with rfl | h
    · rfl
    · simp [isNumeralChar, isDigit_of_mem_ofNat h]

theorem not_mem_of_isNumeralChar {c : Char} (h : isNumeralChar c = true) {l : List Char}
    (hl : (l.all fun d => !isNumeralChar d) = true) : c ∉ l := by
  intro hm
  have hc := List.all_eq_true.mp hl c hm
  rw [h] at hc
  cases hc

theorem exists_ofInt_eq_cons (n : Int) :
    ∃ c rest, Text.ofInt n = c :: rest ∧ isNumeralChar c = true := by
  cases n with
  | ofNat n =>
    obtain ⟨c, rest, h, -⟩ := exists_ofNat_eq_cons n
    exact ⟨c, rest, h, isNumeralChar_of_mem_ofInt (n := .ofNat n) (by simp [Text.ofInt, h])⟩
  | negSucc n => exact ⟨_, _, rfl, rfl⟩

theorem integer?_ofInt (n : Int) : integer? (Text.ofInt n) = some (some n) := by
  have hx : ∀ c rest, Text.ofInt n ≠ '0' :: c :: rest := by
    intro c rest he
    cases n with
    | ofNat n =>
      obtain ⟨d, rest', hc, hz⟩ := exists_ofNat_eq_cons n
      rw [Text.ofInt, hc] at he
      obtain ⟨hd, hr⟩ := List.cons.inj he
      rw [hz hd] at hr
      cases hr
    | negSucc n => cases he
  have hu : integer? (Text.ofInt n) =
      decimalInteger? (splitSign (Text.ofInt n)).1 (splitSign (Text.ofInt n)).2 := by
    unfold integer?
    split
    · next he => exact absurd he (hx _ _)
    · next he => exact absurd he (hx _ _)
    · next he => exact absurd he (hx _ _)
    · rfl
  rw [hu]
  cases n with
  | ofNat n =>
    obtain ⟨c, rest, hc, -⟩ := exists_ofNat_eq_cons n
    have hd : c.isDigit = true := isDigit_of_mem_ofNat (n := n) (by simp [hc])
    have hs : splitSign (Text.ofNat n) = (false, Text.ofNat n) := by
      rw [hc]
      unfold splitSign
      split
      · next he =>
        cases he
        cases hd
      · next he =>
        cases he
        cases hd
      · rfl
    rw [Text.ofInt, hs, decimalInteger?_ofNat]
    rfl
  | negSucc n =>
    rw [Text.ofInt, splitSign, decimalInteger?_ofNat]
    rfl

theorem fixedDigits?_suffix {n value v : Nat} {s rest : Text}
    (h : fixedDigits? n value s = some (v, rest)) : rest <:+ s := by
  induction n generalizing value s with
  | zero =>
    cases h
    exact List.suffix_refl _
  | succ n ih =>
    cases s with
    | nil => cases h
    | cons c s =>
      rw [fixedDigits?] at h
      split at h
      · cases h
      · exact (ih h).trans (List.suffix_cons c s)

theorem mem_of_separator? {c : Char} {s t rest : Text} (h : separator? c t = some rest)
    (ht : t <:+ s) : c ∈ s := by
  cases t with
  | nil => cases h
  | cons d t =>
    rw [separator?] at h
    split at h
    · next hd => exact ht.subset (by simp [hd])
    · cases h

theorem time?_ofInt (n : Int) : time? (Text.ofInt n) = none := by
  rw [Option.eq_none_iff_forall_ne_some]
  intro rest h
  obtain ⟨⟨hour, r⟩, hr, h⟩ := Option.bind_eq_some_iff.mp h
  obtain ⟨r', hs, -⟩ := Option.bind_eq_some_iff.mp h
  have hm := isNumeralChar_of_mem_ofInt (mem_of_separator? hs (fixedDigits?_suffix hr))
  cases hm

theorem date?_ofInt (n : Int) : date? (Text.ofInt n) = none := by
  rw [Option.eq_none_iff_forall_ne_some]
  intro rest h
  obtain ⟨⟨year, r⟩, hr, h⟩ := Option.bind_eq_some_iff.mp h
  obtain ⟨r', hs, -⟩ := Option.bind_eq_some_iff.mp h
  -- A hyphen would have to stand behind the year, and a numeral has one in front at most.
  cases n with
  | ofNat n =>
    have hm := isDigit_of_mem_ofNat (n := n) (mem_of_separator? hs (fixedDigits?_suffix hr))
    cases hm
  | negSucc n => cases hr

theorem ofWord?_ofInt (n : Int) : Scalar.ofWord? (Text.ofInt n) = some (.integer (some n)) := by
  have hl : Scalar.names.lookup (Text.ofInt n) = none := by
    rw [List.lookup_eq_none_iff]
    intro name hm
    have hn : (Scalar.names.all fun name => name.1.any fun c => !isNumeralChar c) = true := rfl
    obtain ⟨c, hc, hn⟩ := List.any_eq_true.mp (List.all_eq_true.mp hn name hm)
    rw [bne_iff_ne]
    intro he
    rw [isNumeralChar_of_mem_ofInt (he ▸ hc)] at hn
    cases hn
  rw [Scalar.ofWord?, hl, isDateTime, date?_ofInt, time?_ofInt, integer?_ofInt]
  rfl

theorem endsWord_of_isNumeralChar {c : Char} (h : isNumeralChar c = true) : endsWord c = false := by
  have hm : c ∉ [' ', '\t', '\n', '\r', '#', ',', '=', '[', ']', '\x7b', '\x7d'] :=
    not_mem_of_isNumeralChar h rfl
  rw [Bool.eq_false_iff]
  intro he
  exact hm (by simpa [endsWord, isBlank, or_assoc] using he)

theorem isBlank_of_isNumeralChar {c : Char} (h : isNumeralChar c = true) : isBlank c = false := by
  have he := endsWord_of_isNumeralChar h
  rw [endsWord, Bool.or_eq_false_iff] at he
  exact he.1

theorem word_of_isNumeralChar {s : Text} (h : ∀ c ∈ s, isNumeralChar c = true) {u : Text}
    (hu : word u = ([], u)) : word (s ++ u) = (s, u) := by
  induction s with
  | nil => exact hu
  | cons c s ih =>
    obtain ⟨hc, hs⟩ := List.forall_mem_cons.mp h
    rw [List.cons_append, word]
    simp [isBlank_of_isNumeralChar hc, endsWord_of_isNumeralChar hc, ih hs, Prod.map]

/-- A decimal integer is read as itself where no word goes on behind it. -/
theorem value?_ofInt (depth : Nat) (n : Int) {u : Text} (hu : word u = ([], u)) :
    value? depth (Text.ofInt n ++ u) =
      some (.scalar ⟨Text.ofInt n ++ u, u⟩ (.integer (some n)), u) := by
  have hw : word (Text.ofInt n ++ u) = (Text.ofInt n, u) :=
    word_of_isNumeralChar (fun _ => isNumeralChar_of_mem_ofInt) hu
  obtain ⟨c, rest, hc, hn⟩ := exists_ofInt_eq_cons n
  have hq : ∀ d ∈ ['"', '\'', '[', '\x7b'], c ≠ d := by
    rintro d hd rfl
    exact not_mem_of_isNumeralChar hn rfl hd
  have hs : scalar? (Text.ofInt n ++ u) =
      some (.scalar ⟨Text.ofInt n ++ u, u⟩ (.integer (some n)), u) := by
    have hst : string? (Text.ofInt n ++ u) = none := by
      rw [hc]
      exact string?_of_not_quote (hq _ (by simp)) (hq _ (by simp)) _
    rw [scalar?, hst, hw, ofWord?_ofInt]
    rfl
  cases depth with
  | zero => exact hs
  | succ depth =>
    unfold value?
    split
    · next he =>
      rw [hc] at he
      exact absurd (List.cons.inj he).1 (hq _ (by simp))
    · next he =>
      rw [hc] at he
      exact absurd (List.cons.inj he).1 (hq _ (by simp))
    · exact hs

theorem solid_ofInt (n : Int) (u : Text) : Solid (Text.ofInt n ++ u) := by
  obtain ⟨c, rest, hc, hn⟩ := exists_ofInt_eq_cons n
  rw [hc]
  exact solid_cons (not_mem_of_isNumeralChar hn rfl) _

end SourceGen.Toml
