import PascalTokens.Proofs.Reading.Decoding

/-! No line that is read holds a newline. A newline ends the bytes that are collected for a line,
and no byte of another character is one. -/
namespace PascalTokens

theorem Event.newline_not_mem_dropLast {es after : List Event} {bs : List UInt8}
    (h : line es = (.ok bs,after)) : Read.newline ∉ bs.dropLast := by
  have hcollected : Read.newline ∉ (es.takeWhile continues).filterMap byte? := by
    intro hm
    obtain ⟨e,he,hb⟩ := List.mem_filterMap.1 hm
    have hcontinues := List.mem_takeWhile_imp he
    cases e with
    | byte b =>
      cases hb
      simp [continues] at hcontinues
    | pause => cases hb
    | failure f => cases hb
  unfold line at h
  cases hd : es.dropWhile continues with
  | nil =>
    rw [hd] at h
    cases h
    exact fun hm => hcollected (List.dropLast_subset _ hm)
  | cons e later =>
    rw [hd] at h
    cases e with
    | byte b =>
      cases h
      rw [List.dropLast_concat]
      exact hcollected
    | pause =>
      cases h
      exact fun hm => hcollected (List.dropLast_subset _ hm)
    | failure f => cases h

namespace Text

theorem newline_not_mem_dropLast {t : List Char} (h : Read.newline ∉ (encode t).dropLast) :
    '\n' ∉ t.dropLast := by
  rcases List.eq_nil_or_concat t with rfl | ⟨u,c,rfl⟩
  · simp
  · intro hm
    rw [List.concat_eq_append,List.dropLast_concat] at hm
    apply h
    rw [List.concat_eq_append,encode_append,encode_cons,encode_nil,List.append_nil,
      List.dropLast_append_of_ne_nil String.utf8EncodeChar_ne_nil]
    have hc : Read.newline ∈ String.utf8EncodeChar '\n' := newline_mem_utf8EncodeChar.2 rfl
    exact List.mem_append_left _ (List.mem_flatMap.2 ⟨'\n',hm,hc⟩)

theorem newline_not_mem_unterminated {t : List Char} (h : '\n' ∉ t.dropLast) :
    '\n' ∉ unterminated t := by
  unfold unterminated
  by_cases hlast : t.getLast? = some '\n'
  · rw [if_pos hlast]
    split
    · exact fun hm => h (List.dropLast_subset _ hm)
    · exact h
  · rw [if_neg hlast]
    rcases List.eq_nil_or_concat t with rfl | ⟨u,c,rfl⟩
    · simp
    · rw [List.concat_eq_append] at h hlast ⊢
      rw [List.dropLast_concat] at h
      have hc : c ≠ '\n' := by simpa using hlast
      exact List.not_mem_append h (by simpa using hc.symm)

end Text

namespace Source

theorem newline_not_mem_of_nextLine {s t : Source} {l : Line}
    (h : s.nextLine = (.ok (some l),t)) : '\n' ∉ l := by
  have ha := s.nextLine_events.1
  rw [h] at ha
  rcases hline : Event.line (Read.events s.reads) with ⟨f | bs,after⟩
  · rw [hline] at ha
    cases ha
  · rw [hline] at ha
    cases bs with
    | nil => cases ha
    | cons b bs =>
      cases hd : decode (b :: bs) with
      | none =>
        rw [Counted.answer_of_decode_none (List.cons_ne_nil b bs) hd] at ha
        cases ha
      | some u =>
        rw [Counted.answer_of_decode_some (List.cons_ne_nil b bs) hd] at ha
        cases ha
        have hbytes := Event.newline_not_mem_dropLast hline
        rw [decode_eq_some.1 hd] at hbytes
        exact Text.newline_not_mem_unterminated (Text.newline_not_mem_dropLast hbytes)

/-- No line of a source holds a newline, whether or not the source can be read to its end. -/
theorem newline_not_mem_of_mem_read (s : Source) :
    ∀ p ∈ (LineSource.read s).lines, '\n' ∉ p.1 := by
  fun_induction LineSource.read s with
  | case1 s e t h => simp
  | case2 s t h => simp
  | case3 s l t h r ih =>
    have hl : '\n' ∉ l := newline_not_mem_of_nextLine h
    exact List.forall_mem_cons.2 ⟨hl,ih⟩

end Source

theorem Text.newline_not_mem_of_mem_lines {t : List Char} {l : Line} (h : l ∈ lines t) :
    '\n' ∉ l := by
  obtain ⟨hlines,-⟩ := Source.read_of_decode_some (s := Source.ofBytes "" (encode t))
    (Read.gives_data (encode t)) (Source.decode_eq_some.2 rfl)
  rw [← List.zipIdx_map_fst 1 (lines t)] at h
  obtain ⟨p,hp,rfl⟩ := List.mem_map.1 h
  exact Source.newline_not_mem_of_mem_read _ p (hlines ▸ hp)

end PascalTokens
