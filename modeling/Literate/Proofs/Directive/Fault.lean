import Literate.Directive.Extent
import Literate.Proofs.Place

/-!
# Where faults are

A directive is refused for some of the characters that its reader had ahead, and the fault says which
ones: its span is where they are and its text is what they are (`Fault.Ahead`). One lemma for each
reader, up to the reader of a whole directive (`readAt_error`).

Seen from the start of a text, such a fault is at the offsets and on the line that its span says
(`Fault.LocatedIn`).
-/

namespace Literate.Directive

/-- A fault of some characters that the cursor has ahead. -/
def Fault.Ahead (c : Cursor) (fault : Fault) : Prop :=
  ∃ k n reason, fault = faultAt (c.advance k) n reason ∧ k + n ≤ c.rest.length

/-- A fault that names a place in a text: its characters are those between the offsets of its span, and
its line counts the newlines before them. -/
structure Fault.LocatedIn (text : List Char) (fault : Fault) : Prop where
  start_nonneg : 0 ≤ fault.span.start
  start_le_stop : fault.span.start ≤ fault.span.stop
  stop_le : fault.span.stop ≤ text.length
  text_eq : (text.take fault.span.stop.toNat).drop fault.span.start.toNat = fault.text.toList
  line_eq : fault.span.line = (text.take fault.span.start.toNat).count '\n' + 1

variable {m : Option Marker} {seen : List Key} {c : Cursor} {fault : Fault}

namespace Fault

instance (text : List Char) (fault : Fault) : Decidable (fault.LocatedIn text) :=
  decidable_of_iff (0 ≤ fault.span.start ∧ fault.span.start ≤ fault.span.stop ∧
      fault.span.stop ≤ text.length ∧
      (text.take fault.span.stop.toNat).drop fault.span.start.toNat = fault.text.toList ∧
      fault.span.line = (text.take fault.span.start.toNat).count '\n' + 1)
    ⟨fun ⟨h₁, h₂, h₃, h₄, h₅⟩ => ⟨h₁, h₂, h₃, h₄, h₅⟩, fun ⟨h₁, h₂, h₃, h₄, h₅⟩ => ⟨h₁, h₂, h₃, h₄, h₅⟩⟩

/-- The place of a fault is where its characters stand between what is before and what is behind them. -/
theorem locatedIn_iff {text : List Char} : fault.LocatedIn text ↔
    ∃ before after, text = before ++ fault.text.toList ++ after ∧
      fault.span = (Position.start.after before).span fault.text.toList := by
  constructor
  · rintro ⟨hstart, hle, hstop, htext, hline⟩
    obtain ⟨i, hi⟩ : ∃ i : Nat, fault.span.start = i := ⟨fault.span.start.toNat, by omega⟩
    obtain ⟨j, hj⟩ : ∃ j : Nat, fault.span.stop = j := ⟨fault.span.stop.toNat, by omega⟩
    rw [hi, hj, Int.toNat_natCast, Int.toNat_natCast] at htext
    rw [hi, Int.toNat_natCast] at hline
    have hij : i ≤ j := by omega
    have hbefore : (text.take j).take i = text.take i := by rw [List.take_take, Nat.min_eq_left hij]
    have hlength : (text.take i).length = i := by rw [List.length_take]; omega
    have hinside : fault.text.toList.length = j - i := by
      rw [← htext, List.length_drop, List.length_take]
      omega
    refine ⟨text.take i, text.drop j, ?_, ?_⟩
    · rw [← htext, ← hbefore, List.take_append_drop, List.take_append_drop]
    · simp only [Position.start, Position.after, Position.span, hlength, hinside]
      rw [show fault.span = ⟨fault.span.start, fault.span.stop, fault.span.line⟩ from rfl,
        Span.mk.injEq]
      omega
  · rintro ⟨before, after, htext, hspan⟩
    have hstart : fault.span.start = before.length := by
      rw [hspan]
      simp [Position.span, Position.after, Position.start]
    have hstop : fault.span.stop = (before ++ fault.text.toList).length := by
      rw [hspan]
      simp [Position.span, Position.after, Position.start]
    refine ⟨by omega, by rw [List.length_append] at hstop; omega, ?_, ?_, ?_⟩
    · rw [hstop, htext]
      exact_mod_cast (List.prefix_append _ after).length_le
    · rw [hstop, hstart, Int.toNat_natCast, Int.toNat_natCast, htext, List.take_left,
        List.drop_left]
    · rw [hstart, Int.toNat_natCast, htext, List.append_assoc, List.take_left, hspan]
      simp only [Position.span, Position.after, Position.start]
      omega

theorem Ahead.locatedIn {text : List Char} (h : fault.Ahead (.ofText text)) :
    fault.LocatedIn text := by
  obtain ⟨k, n, reason, rfl, hle⟩ := h
  have hle : k + n ≤ text.length := hle
  have htext : text = text.take k ++ ((text.drop k).take n ++ (text.drop k).drop n) := by
    rw [List.take_append_drop, List.take_append_drop]
  have hposition : ((Cursor.ofText text).advance k).position = Position.start.after (text.take k) := by
    have hlength : (text.take k).length = k := by simp; omega
    have hadvance := Cursor.position_advance (c := .ofText text) htext
    rwa [hlength] at hadvance
  have hahead : (faultAt ((Cursor.ofText text).advance k) n reason).text.toList =
      (text.drop k).take n := String.toList_ofList
  rw [locatedIn_iff]
  refine ⟨text.take k, (text.drop k).drop n, ?_, ?_⟩
  · rw [hahead, List.append_assoc]
    exact htext
  · have hlength : ((text.drop k).take n).length = n := by simp; omega
    rw [hahead, ← hposition, ← Cursor.span_eq, hlength]
    rfl

theorem Ahead.of_faultAt {n : Nat} {reason : Reason} (h : n ≤ c.rest.length) :
    (faultAt c n reason).Ahead c :=
  ⟨0, n, reason, by rw [Cursor.advance_zero], by omega⟩

/-- What is ahead further on is ahead. -/
theorem Ahead.of_advance {k : Nat} (h : fault.Ahead (c.advance k)) (hk : k ≤ c.rest.length) :
    fault.Ahead c := by
  obtain ⟨j, n, reason, rfl, hle⟩ := h
  rw [Cursor.rest_advance, List.length_drop] at hle
  exact ⟨k + j, n, reason, by rw [Cursor.advance_advance], by omega⟩

theorem Ahead.of_skipBlanks (h : fault.Ahead (skipBlanks c)) : fault.Ahead c :=
  h.of_advance (length_takeWhile_le _ _)

end Fault

/-! ## Readers -/

theorem quotedInside.cons_eq_error {n k : Nat} {c : Char} {r : Except Nat (List Char × Nat)}
    (h : quotedInside.cons n c r = .error k) : ∃ j, r = .error j ∧ k = j + n := by
  cases r with
  | error j =>
    cases h
    exact ⟨j, rfl, rfl⟩
  | ok r => cases h

theorem quotedInside_error_le {q : Char} {cs : List Char} {n : Nat}
    (h : quotedInside m q cs = .error n) : n ≤ cs.length := by
  fun_induction quotedInside m q cs generalizing n with
  | case1 | case2 =>
    cases h
    omega
  | case3 e cs' _ _ ih =>
    obtain ⟨k, hk, rfl⟩ := quotedInside.cons_eq_error h
    have := ih hk
    simp only [List.length_cons]
    omega
  | case4 e cs' _ _ ih =>
    obtain ⟨k, hk, rfl⟩ := quotedInside.cons_eq_error h
    have := ih hk
    simp only [List.length_cons] at *
    omega
  | case5 =>
    cases h
    simp
  | case6 => cases h
  | case7 c cs _ _ _ ih =>
    obtain ⟨k, hk, rfl⟩ := quotedInside.cons_eq_error h
    have := ih hk
    simp only [List.length_cons]
    omega

theorem readLiteral_error {key : String} (h : readLiteral m key c = .error fault) :
    fault.Ahead c := by
  unfold readLiteral at h
  split at h
  · split at h
    · cases h
      exact .of_faultAt (Nat.le_refl _)
    · cases h
  · split at h
    · cases h
    · rename_i q cs hrest
      split at h
      · split at h
        · rename_i n hinside
          have := quotedInside_error_le hinside
          cases h
          exact .of_faultAt (by simp only [hrest, List.length_cons]; omega)
        · cases h
      · cases h

/-- A literal that means nothing under its key is at fault as a whole. -/
theorem interpret_error {n : Nat} {key : Key} {value : Literal}
    (h : interpret c n key value = .error fault) : ∃ reason, fault = faultAt c n reason := by
  unfold interpret at h
  split at h
  case h_3 | h_4 =>
    cases h
    exact ⟨_, rfl⟩
  case h_6 | h_7 | h_8 =>
    split at h
    all_goals cases h
    exact ⟨_, rfl⟩
  all_goals cases h

theorem readKey_error (h : readKey m seen c = .error fault) : fault.Ahead c := by
  have hword := wordLength_le m c.rest
  have hkey := keyLength_le c.rest
  simp only [readKey] at h
  split at h
  · cases h
    exact .of_faultAt hword
  · split at h
    · cases h
      exact .of_faultAt hkey
    · split at h
      · cases h
        exact .of_faultAt hkey
      · split at h
        · cases h
        · cases h
          exact .of_faultAt hkey

theorem readItem_error (h : readItem m seen c = .error fault) : fault.Ahead c := by
  unfold readItem at h
  split at h
  · rename_i hkey
    cases h
    exact readKey_error hkey
  · rename_i key k hkey
    have hk := readKey_le hkey
    simp only at h
    refine Fault.Ahead.of_advance ?_ hk
    split at h
    · rename_i hliteral
      cases h
      exact readLiteral_error hliteral
    · rename_i value n hliteral
      have hn := readLiteral_le hliteral
      split at h
      · split at h
        · rename_i hmeans
          cases h
          obtain ⟨reason, rfl⟩ := interpret_error hmeans
          exact .of_faultAt hn
        · cases h
      · -- what does not end the word is one more character
        rename_i hgoes
        have hmore : (c.advance k).rest.drop n ≠ [] := by
          intro hnil
          rw [hnil] at hgoes
          exact hgoes rfl
        have := List.length_pos_iff.mpr hmore
        rw [List.length_drop] at this
        cases h
        exact .of_faultAt (by omega)

theorem readItems_error {opening : Cursor} (h : readItems m opening seen c = .error fault) :
    fault.Ahead opening ∨ fault.Ahead c := by
  fun_induction readItems m opening seen c with
  | case1 | case2 => cases h
  | case3 =>
    cases h
    exact Or.inl (.of_faultAt (Nat.le_refl _))
  | case4 seen c start hends hrest e hitem =>
    cases h
    exact Or.inr (readItem_error hitem).of_skipBlanks
  | case5 seen c start hends hrest item n hitem e hlater ih =>
    cases h
    rcases ih hlater with hahead | hahead
    · exact Or.inl hahead
    · exact Or.inr (hahead.of_advance (readItem_le hitem)).of_skipBlanks
  | case6 => cases h

theorem readQualifier_error (h : readQualifier m c = .error fault) : fault.Ahead c := by
  unfold readQualifier at h
  split at h
  · rename_i cs hrest
    have hword := wordLength_le m cs
    simp only at h
    split at h
    · cases h
      exact .of_faultAt (by simp [hrest])
    · split at h
      · cases h
      · cases h
        have hahead : (faultAt (c.advance 1) (wordLength m cs)
            (.badQualifier (String.ofList (cs.take (wordLength m cs))))).Ahead (c.advance 1) :=
          .of_faultAt (by simpa [hrest] using hword)
        exact hahead.of_advance (by simp [hrest])
  · cases h

theorem readInside_error {opening : Cursor} {k : Nat} (hk : k ≤ opening.rest.length)
    (h : readInside m opening (opening.advance k) = .error fault) : fault.Ahead opening := by
  unfold readInside at h
  split at h
  · rename_i hqualifier
    cases h
    exact (readQualifier_error hqualifier).of_advance hk
  · rename_i language n hqualifier
    have hn := readQualifier_le hqualifier
    split at h
    · rename_i hitems
      cases h
      rcases readItems_error hitems with hahead | hahead
      · exact hahead
      · exact (hahead.of_advance hn).of_advance hk
    · cases h

/-- A directive is refused for characters that are ahead of where it starts. -/
theorem readAt_error (h : readAt c = .error fault) : fault.Ahead c := by
  unfold readAt at h
  split at h
  · cases h
    exact .of_faultAt (Nat.zero_le _)
  · rename_i k hk
    exact readInside_error (Marker.length_opener_le hk) h

end Literate.Directive
