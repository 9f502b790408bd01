import Literate.Directive.Reader
import Literate.Directive.Skip

/-!
# How far reading and skipping go

Every reader stays inside the text that it is given, and a directive that is read takes at least
one character. So the cursor behind a directive is the cursor before it, advanced, and less text
remains than before.
-/

namespace Literate.Directive

theorem length_takeWhile_le (p : Char → Bool) (cs : List Char) :
    (cs.takeWhile p).length ≤ cs.length :=
  (List.takeWhile_sublist p).length_le

theorem quotedInside.cons_eq_ok {n k : Nat} {c : Char} {r : Except Nat (List Char × Nat)}
    {text : List Char} (h : quotedInside.cons n c r = .ok (text, k)) :
    ∃ text' k', r = .ok (text', k') ∧ text = c :: text' ∧ k = k' + n := by
  cases r with
  | error j => cases h
  | ok r => cases h; exact ⟨r.1, r.2, rfl, rfl, rfl⟩

theorem quotedInside_ok_le {m : Option Marker} {q : Char} {cs text : List Char} {n : Nat}
    (h : quotedInside m q cs = .ok (text, n)) : n ≤ cs.length := by
  fun_induction quotedInside m q cs generalizing text n with
  | case1 => cases h
  | case2 => cases h
  | case3 e cs' _ _ ih =>
    obtain ⟨t, k, hr, _, rfl⟩ := quotedInside.cons_eq_ok h
    have := ih hr
    simp only [List.length_cons]; omega
  | case4 e cs' _ _ ih =>
    obtain ⟨t, k, hr, _, rfl⟩ := quotedInside.cons_eq_ok h
    have := ih hr
    simp only [List.length_cons] at *; omega
  | case5 => cases h
  | case6 => cases h; simp
  | case7 c cs _ _ _ ih =>
    obtain ⟨t, k, hr, _, rfl⟩ := quotedInside.cons_eq_ok h
    have := ih hr
    simp only [List.length_cons]; omega

theorem keyLength_le (cs : List Char) : keyLength cs ≤ cs.length := by
  cases cs with
  | nil => simp [keyLength]
  | cons c cs =>
    have := length_takeWhile_le isKeyChar cs
    simp only [keyLength, List.length_cons]
    split <;> omega

theorem readKey_le {m : Option Marker} {seen : List Key} {c : Cursor} {key : Key} {n : Nat}
    (h : readKey m seen c = .ok (key, n)) : n ≤ c.rest.length := by
  simp only [readKey] at h
  split at h
  · cases h
  · split at h
    · cases h
    · split at h
      · cases h
      · split at h
        · rename_i heq
          cases h
          have : c.rest.drop (keyLength c.rest) ≠ [] := by
            intro he; simp [he] at heq
          have := List.length_pos_iff.mpr this
          simp only [List.length_drop] at this
          omega
        · cases h

theorem readLiteral_le {m : Option Marker} {key : String} {c : Cursor} {value : Literal} {n : Nat}
    (h : readLiteral m key c = .ok (value, n)) : n ≤ c.rest.length := by
  unfold readLiteral at h
  split at h
  · split at h
    · cases h
    · rename_i k hk
      have := beforeBars?_le hk
      cases h
      simp only [List.length_drop] at this
      omega
  · split at h
    · cases h; simp
    · rename_i q cs hq
      split at h
      · split at h
        · cases h
        · rename_i text k hk
          have := quotedInside_ok_le hk
          cases h
          simp only [hq, List.length_cons]; omega
      · cases h
        exact wordLength_le m c.rest

theorem readItem_le {m : Option Marker} {seen : List Key} {c : Cursor} {item : Item} {n : Nat}
    (h : readItem m seen c = .ok (item, n)) : n ≤ c.rest.length := by
  unfold readItem at h
  split at h
  · cases h
  · rename_i key k hk
    have hkl := readKey_le hk
    simp only at h
    split at h
    · cases h
    · rename_i value l hl
      have := readLiteral_le hl
      simp only [Cursor.rest_advance, List.length_drop] at this
      split at h
      · split at h
        · cases h
        · cases h; omega
      · cases h

/-- Passing over blanks only moves the cursor. -/
theorem skipBlanks_eq (c : Cursor) :
    ∃ k, skipBlanks c = c.advance k ∧ k ≤ c.rest.length :=
  ⟨_, rfl, length_takeWhile_le _ _⟩

theorem closerLength_le {m : Option Marker} {cs : List Char} (h : ends m cs = true) :
    closerLength m ≤ cs.length := by
  cases m with
  | none => simp [closerLength]
  | some m => exact (List.isPrefixOf_iff_prefix.mp h).length_le

theorem readItems_eq {m : Option Marker} {opening c stop : Cursor} {seen : List Key}
    {items : List Item} (h : readItems m opening seen c = .ok (items, stop)) :
    ∃ k, stop = c.advance k ∧ k ≤ c.rest.length := by
  fun_induction readItems m opening seen c generalizing items stop with
  | case1 seen c start =>
    rename_i hends
    obtain ⟨k, hk, hle⟩ := skipBlanks_eq c
    have hcl := closerLength_le hends
    cases h
    simp only [start, hk, Cursor.rest_advance, List.length_drop] at hcl
    exact ⟨k + closerLength m, by simp [start, hk, Cursor.advance_advance], by omega⟩
  | case2 seen c =>
    obtain ⟨k, hk, hle⟩ := skipBlanks_eq c
    cases h
    exact ⟨k, hk, hle⟩
  | case3 => cases h
  | case4 => cases h
  | case5 => cases h
  | case6 seen c start =>
    rename_i item n hitem items' stop' hrec ih
    obtain ⟨k, hk, hle⟩ := skipBlanks_eq c
    obtain ⟨j, hj, hjle⟩ := ih hrec
    have hn := readItem_le hitem
    cases h
    simp only [start, hk, Cursor.rest_advance, List.length_drop] at hn hjle
    exact ⟨k + n + j, by rw [hj]; simp [start, hk, Cursor.advance_advance], by omega⟩

theorem readQualifier_le {m : Option Marker} {c : Cursor} {language : Option String} {n : Nat}
    (h : readQualifier m c = .ok (language, n)) : n ≤ c.rest.length := by
  unfold readQualifier at h
  split at h
  · rename_i cs hcs
    have := wordLength_le m cs
    simp only at h
    split at h
    · cases h
    · split at h
      · cases h; simp only [hcs, List.length_cons]; omega
      · cases h
  · cases h; omega

theorem readInside_eq {m : Option Marker} {opening c stop : Cursor} {d : Directive}
    (h : readInside m opening c = .ok (d, stop)) :
    ∃ k, stop = c.advance k ∧ k ≤ c.rest.length := by
  unfold readInside at h
  split at h
  · cases h
  · rename_i language n hq
    have hn := readQualifier_le hq
    split at h
    · cases h
    · rename_i items stop' hi
      obtain ⟨k, hk, hle⟩ := readItems_eq hi
      cases h
      simp only [Cursor.rest_advance, List.length_drop] at hle
      exact ⟨n + k, by rw [hk, Cursor.advance_advance], by omega⟩

/-- A directive that is read takes some characters, all of them inside the text. -/
theorem readAt_eq {c stop : Cursor} {d : Directive} (h : readAt c = .ok (d, stop)) :
    ∃ k, stop = c.advance k ∧ 0 < k ∧ k ≤ c.rest.length := by
  unfold readAt at h
  split at h
  · cases h
  · rename_i m hm
    obtain ⟨k, hk, hle⟩ := readInside_eq h
    have := Marker.length_opener_le hm
    have := m.opener_pos
    simp only [Cursor.rest_advance, List.length_drop] at hle
    exact ⟨m.opener.length + k, by rw [hk, Cursor.advance_advance], by omega, by omega⟩

theorem readAt_length_lt {c stop : Cursor} {d : Directive} (h : readAt c = .ok (d, stop)) :
    stop.rest.length < c.rest.length := by
  obtain ⟨k, rfl, hk, hle⟩ := readAt_eq h
  simp only [Cursor.rest_advance, List.length_drop]
  omega

theorem restOfQuoted_le (m : Marker) (quote : Char) (cs : List Char) :
    restOfQuoted m quote cs ≤ cs.length := by
  fun_induction restOfQuoted m quote cs <;> simp only [List.length_cons, List.length_nil] at * <;> omega

theorem throughCloser?_le {m : Marker} {cs : List Char} {n : Nat} (h : throughCloser? m cs = some n) :
    n ≤ cs.length := by
  fun_induction throughCloser? m cs generalizing n with
  | case1 => cases h
  | case2 c rest hcloses =>
    cases h
    exact closerLength_le (m := some m) hcloses
  | case3 => cases h
  | case4 c rest _ _ k hk ih =>
    obtain ⟨j, hj, rfl⟩ := Option.map_eq_some_iff.mp h
    have hinside := beforeBars?_le hk
    have := ih hj
    simp only [List.length_drop] at *
    omega
  | case5 c rest =>
    rename_i ih
    obtain ⟨j, hj, rfl⟩ := Option.map_eq_some_iff.mp h
    have hquoted := restOfQuoted_le m c rest
    have := ih hj
    simp only [List.length_drop, List.length_cons] at *
    omega
  | case6 c rest _ _ _ ih =>
    obtain ⟨j, hj, rfl⟩ := Option.map_eq_some_iff.mp h
    have := ih hj
    simp only [List.length_cons]
    omega

theorem throughAnyCloser?_le {m : Marker} {cs : List Char} {n : Nat}
    (h : throughAnyCloser? m cs = some n) : n ≤ cs.length := by
  fun_induction throughAnyCloser? m cs generalizing n with
  | case1 => cases h
  | case2 c cs hcloses =>
    cases h
    exact closerLength_le (m := some m) hcloses
  | case3 c cs _ ih =>
    obtain ⟨j, hj, rfl⟩ := Option.map_eq_some_iff.mp h
    have := ih hj
    simp only [List.length_cons]
    omega

/-- Skipping stays inside the text. -/
theorem skipLength_le {cs : List Char} (h : cs ≠ []) : skipLength cs ≤ cs.length := by
  unfold skipLength
  split
  · exact List.length_pos_iff.mpr h
  · rename_i m hm
    have hopener := Marker.length_opener_le hm
    simp only
    split
    · rename_i n hn
      have hinside : n ≤ (cs.drop m.opener.length).length := by
        cases hfound : throughCloser? m (cs.drop m.opener.length) with
        | some k =>
          rw [hfound] at hn
          cases hn
          exact throughCloser?_le hfound
        | none =>
          rw [hfound] at hn
          exact throughAnyCloser?_le hn
      rw [List.length_drop] at hinside
      omega
    · exact length_takeWhile_le _ _

/-- Skipping makes progress. -/
theorem skipLength_pos {cs : List Char} : 0 < skipLength cs := by
  unfold skipLength
  split
  · omega
  · rename_i m hm
    have := m.opener_pos
    simp only
    split
    · omega
    · obtain ⟨t, ht⟩ := Marker.opener_prefix_of_at? hm
      cases m <;> simp [← ht, Marker.opener]

end Literate.Directive
