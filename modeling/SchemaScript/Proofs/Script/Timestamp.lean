/- Timestamps: which characters they are written with, and that one with a year of four digits is read
   back as it was written. -/
import SchemaScript.Script.Timestamp
import SchemaScript.Proofs.Text.Digits

namespace SchemaScript.Timestamp

variable {t : Timestamp} {count n : Nat} {rest s : Text}

theorem mem_yearText {year : Int} {c : Char} (h : c ∈ yearText year) :
    c = '-' ∨ c = '+' ∨ c ∈ Text.ofNatPadded 4 year.natAbs := by
  simp only [yearText] at h
  split at h
  · exact (List.mem_cons.1 h).imp_right .inr
  · split at h
    · exact .inr (List.mem_cons.1 h)
    · exact .inr (.inr h)

theorem isValid_iff : t.isValid = true ↔
    1 ≤ t.month ∧ t.month ≤ 12 ∧ 1 ≤ t.day ∧ t.day ≤ daysInMonth t.year t.month
      ∧ t.hour ≤ 23 ∧ t.minute ≤ 59 ∧ t.second ≤ 60 ∧ t.offset.natAbs < 24 * 60 := by
  simp [isValid, and_assoc]

theorem daysInMonth_le (year : Int) (month : Nat) : daysInMonth year month ≤ 31 := by
  unfold daysInMonth
  repeat' split
  all_goals decide

section Digits

theorem digits?_ofNatPadded (hpos : 0 < count) (h : n < 10 ^ count) (rest : Text) :
    digits? count (Text.ofNatPadded count n ++ rest) = some (n, rest) := by
  have hlength := Text.length_ofNatPadded hpos h
  have hall : (Text.ofNatPadded count n).all (fun c => '0' ≤ c && c ≤ '9') = true :=
    List.all_eq_true.2 fun c hc => Text.isDigit_of_mem_ofNatPadded hc
  rw [digits?, List.take_left' hlength, List.drop_left' hlength, if_pos ⟨hlength, hall⟩,
    Text.nat?_ofNatPadded, Option.map_some]

theorem lt_of_digits? (h : digits? count s = some (n, rest)) : n < 10 ^ count := by
  unfold digits? at h
  split at h
  · next hdigits =>
    obtain ⟨m, hm, he⟩ := Option.map_eq_some_iff.1 h
    cases he
    exact hdigits.1 ▸ Text.lt_of_nat? hm
  · cases h

end Digits

theorem behind?_cons (c : Char) (s : Text) : behind? c (c :: s) = some s := by
  simp [behind?, Text.after?]

theorem afterFraction?_signed (offset : Int) (s : Text) :
    afterFraction? ((if offset < 0 then '-' else '+') :: s)
      = some ((if offset < 0 then '-' else '+') :: s) := by
  split <;> rfl

theorem offset?_parts (negative : Bool) {hours minutes : Nat} (hhours : hours < 100)
    (hminutes : minutes ≤ 59) :
    offset? ((if negative then '-' else '+') :: (Text.ofNatPadded 2 hours
      ++ ':' :: Text.ofNatPadded 2 minutes))
      = some (if negative then -((hours * 60 + minutes : Nat) : Int)
        else ((hours * 60 + minutes : Nat) : Int)) := by
  have hfirst := digits?_ofNatPadded (by decide : 0 < 2) hhours
  have hlast := digits?_ofNatPadded (n := minutes) (by decide : 0 < 2) (by omega) []
  rw [List.append_nil] at hlast
  have hhour := Nat.not_lt.2 hminutes
  cases negative with
  | true => simp [offset?, hfirst, behind?_cons, hlast, hhour]
  | false => simp [offset?, hfirst, behind?_cons, hlast, hhour]

/-- The sign of an offset is read back with hours and minutes of two digits each. -/
theorem offset?_signed {offset : Int} (h : offset.natAbs < 24 * 60) :
    offset? ((if offset < 0 then '-' else '+') :: (Text.ofNatPadded 2 (offset.natAbs / 60)
      ++ ':' :: Text.ofNatPadded 2 (offset.natAbs % 60))) = some offset := by
  have hhours : offset.natAbs / 60 < 100 := by omega
  have hminutes : offset.natAbs % 60 ≤ 59 := by omega
  have hparts := offset?_parts (decide (offset < 0)) hhours hminutes
  simp only [decide_eq_true_eq] at hparts
  rw [hparts, Option.some.injEq]
  split <;> omega

theorem bounds_of_read? (h : read? s = some t) :
    t.isValid = true ∧ 0 ≤ t.year ∧ t.year ≤ 9999 := by
  obtain ⟨⟨year, _⟩, hyear, h⟩ := Option.bind_eq_some_iff.1 h
  -- The parts behind the year are not looked at.
  iterate 12 obtain ⟨_, -, h⟩ := Option.bind_eq_some_iff.1 h
  obtain ⟨hvalid, hresult⟩ := Option.ite_none_right_eq_some.1 h
  obtain rfl := Option.some.inj hresult
  have hsmall : year < 10 ^ 4 := lt_of_digits? hyear
  exact ⟨hvalid, Int.natCast_nonneg year, by change (year : Int) ≤ 9999; omega⟩

theorem read?_text (hvalid : t.isValid = true) (hlow : 0 ≤ t.year) (hhigh : t.year ≤ 9999) :
    read? t.text = some t := by
  obtain ⟨-, hmonth, -, hday, hhour, hminute, hsecond, hoffset⟩ := isValid_iff.1 hvalid
  have hdays := daysInMonth_le t.year t.month
  have hyearText : yearText t.year = Text.ofNatPadded 4 t.year.natAbs := by
    simp only [yearText]
    rw [if_neg (by omega), if_neg (by omega)]
  have htwo {n : Nat} (h : n < 100) (rest : Text) :
      digits? 2 (Text.ofNatPadded 2 n ++ rest) = some (n, rest) :=
    digits?_ofNatPadded (by decide) (by omega) rest
  have hyear (rest : Text) :
      digits? 4 (Text.ofNatPadded 4 t.year.natAbs ++ rest) = some (t.year.natAbs, rest) :=
    digits?_ofNatPadded (by decide) (by omega) rest
  have hsame : ({ t with year := t.year.natAbs } : Timestamp) = t := by
    rw [Int.natAbs_of_nonneg hlow]
  simp only [text, hyearText, List.append_assoc, List.cons_append]
  refine Option.bind_eq_some_iff.2 ⟨_, hyear _, ?_⟩
  refine Option.bind_eq_some_iff.2 ⟨_, behind?_cons _ _, ?_⟩
  refine Option.bind_eq_some_iff.2 ⟨_, htwo (n := t.month) (by omega) _, ?_⟩
  refine Option.bind_eq_some_iff.2 ⟨_, behind?_cons _ _, ?_⟩
  refine Option.bind_eq_some_iff.2 ⟨_, htwo (n := t.day) (by omega) _, ?_⟩
  refine Option.bind_eq_some_iff.2 ⟨_, rfl, ?_⟩
  refine Option.bind_eq_some_iff.2 ⟨_, htwo (n := t.hour) (by omega) _, ?_⟩
  refine Option.bind_eq_some_iff.2 ⟨_, behind?_cons _ _, ?_⟩
  refine Option.bind_eq_some_iff.2 ⟨_, htwo (n := t.minute) (by omega) _, ?_⟩
  refine Option.bind_eq_some_iff.2 ⟨_, behind?_cons _ _, ?_⟩
  refine Option.bind_eq_some_iff.2 ⟨_, htwo (n := t.second) (by omega) _, ?_⟩
  refine Option.bind_eq_some_iff.2 ⟨_, afterFraction?_signed _ _, ?_⟩
  refine Option.bind_eq_some_iff.2 ⟨_, offset?_signed hoffset, ?_⟩
  rw [hsame, if_pos hvalid]

/-- What is written is read back exactly when it is a time of the calendar in a year that takes no sign. -/
theorem read?_text_iff :
    read? t.text = some t ↔ t.isValid = true ∧ 0 ≤ t.year ∧ t.year ≤ 9999 :=
  ⟨bounds_of_read?, fun ⟨hvalid, hlow, hhigh⟩ => read?_text hvalid hlow hhigh⟩

end SchemaScript.Timestamp
