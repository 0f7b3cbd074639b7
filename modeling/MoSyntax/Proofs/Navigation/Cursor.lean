import MoSyntax.Proofs.Navigation.Indexed
import MoSyntax.Token.Lexed

/-!
A cursor answers as a list of tokens with an index does, whatever is done with it, one step after
the other. A step fails only where the index lies past the end of the file, and that takes a cut
below the place or below a mark.
-/
namespace MoSyntax

namespace Cursor

/-- The end of the file stands behind all tokens and nowhere else, and nothing is ahead of a place
past what has been kept. -/
structure Proper (cursor : Cursor) : Prop where
  inner : ∀ token ∈ cursor.tokens, token.isEndOfFile = false
  ends : cursor.eof.isEndOfFile
  past : cursor.beyond = 0 ∨ cursor.ahead = []

def indexed (cursor : Cursor) : IndexedTokens where
  tokens := cursor.tokens ++ [cursor.eof]
  nonempty := by simp
  index := cursor.index

variable {cursor : Cursor} {eof : Token} {tokens : List Token}

@[simp] theorem tokens_placed (eof : Token) (tokens : List Token) (index : Nat) :
    (placed eof tokens index).tokens = tokens := by
  simp [placed, Cursor.tokens]

@[simp] theorem index_placed (eof : Token) (tokens : List Token) (index : Nat) :
    (placed eof tokens index).index = index := by
  simp only [placed, Cursor.index, List.length_reverse, List.length_take]
  omega

@[simp] theorem eof_placed (eof : Token) (tokens : List Token) (index : Nat) :
    (placed eof tokens index).eof = eof := rfl

theorem proper_placed (inner : ∀ token ∈ tokens, token.isEndOfFile = false)
    (ends : eof.isEndOfFile) (index : Nat) : (placed eof tokens index).Proper := by
  refine ⟨by simpa using inner, ends, ?_⟩
  rcases Nat.le_total index tokens.length with within | past
  · exact .inl (Nat.sub_eq_zero_of_le within)
  · exact .inr (List.drop_eq_nil_of_le past)

theorem length_tokens (cursor : Cursor) : cursor.tokens.length = cursor.size := by
  simp [Cursor.tokens, size]

theorem length_indexed (cursor : Cursor) : cursor.indexed.tokens.length = cursor.size + 1 := by
  simp [indexed, length_tokens]

theorem size_placed (eof : Token) (tokens : List Token) (index : Nat) :
    (placed eof tokens index).size = tokens.length := by
  rw [← length_tokens, tokens_placed]

theorem advance_of_nil (none : cursor.ahead = []) : cursor.advance = cursor := by
  rw [Cursor.advance, none]

theorem indexed_ofTokens (tokens : List Token) :
    (ofTokens tokens).indexed = .ofTokens tokens := by
  ext1
  · exact (IndexedTokens.closed_eq _).symm
  · rfl

theorem bodyOf_inner {tokens : List Token}
    (only : ∀ token ∈ tokens.dropLast, token.isEndOfFile = false) :
    ∀ token ∈ bodyOf tokens, token.isEndOfFile = false := by
  intro token member
  rw [bodyOf] at member
  split at member
  · exact only token member
  · rename_i other
    rcases List.eq_nil_or_concat tokens with rfl | ⟨front, last, rfl⟩
    · exact absurd member List.not_mem_nil
    · rw [List.concat_eq_append] at only member other
      rw [List.dropLast_concat] at only
      rcases List.mem_append.1 member with member | member
      · exact only token member
      · obtain rfl := List.mem_singleton.1 member
        simpa using other

theorem endOf_ends (tokens : List Token) : (endOf tokens).isEndOfFile := by
  rw [endOf]
  split
  · split
    · assumption
    · rfl
  · rfl

theorem dropLast_filter (holds : Token → Bool) (tokens : List Token) :
    (tokens.filter holds).dropLast.Sublist tokens.dropLast := by
  rcases List.eq_nil_or_concat tokens with rfl | ⟨front, last, rfl⟩
  · exact List.Sublist.refl []
  · rw [List.concat_eq_append, List.filter_append, List.dropLast_concat]
    cases kept : holds last with
    | true => simp [List.filter_cons_of_pos kept]
    | false => simpa [kept] using (List.dropLast_sublist _).trans List.filter_sublist

theorem proper_ofTokens (only : ∀ token ∈ tokens.dropLast, token.isEndOfFile = false) :
    (ofTokens tokens).Proper :=
  ⟨bodyOf_inner fun token member => only token ((dropLast_filter _ tokens).subset member),
    endOf_ends _, .inl rfl⟩

namespace Proper

theorem beyond_eq_zero (proper : cursor.Proper) (some : cursor.ahead ≠ []) : cursor.beyond = 0 :=
  proper.past.resolve_right some

theorem getElem?_indexed (proper : cursor.Proper) (k : Nat) :
    (cursor.tokens ++ [cursor.eof])[min (cursor.index + k) cursor.size]? =
      some (cursor.peek k) := by
  by_cases within : k < cursor.ahead.length
  · have here := proper.beyond_eq_zero (List.ne_nil_of_length_pos (by omega))
    have least : min (cursor.index + k) cursor.size = cursor.passed.length + k := by
      rw [index, size, here]
      omega
    rw [least, Cursor.tokens, List.append_assoc, List.getElem?_append_right (by simp)]
    simp [peek, List.getElem?_append_left within, List.getElem?_eq_getElem within]
  · have least : min (cursor.index + k) cursor.size = cursor.size := by
      rw [index, size]
      omega
    rw [least, ← length_tokens, List.getElem?_concat_length, peek, List.getD_eq_getElem?_getD,
      List.getElem?_eq_none (Nat.le_of_not_lt within)]
    rfl

theorem indexed_peek (proper : cursor.Proper) (k : Nat) :
    cursor.indexed.peek k = cursor.peek k := by
  have found := proper.getElem?_indexed k
  rw [IndexedTokens.peek]
  apply Option.some.inj
  rw [← List.getElem?_eq_getElem, length_indexed, Nat.add_sub_cancel]
  exact found

theorem indexed_previous? (proper : cursor.Proper) :
    cursor.indexed.previous? = cursor.previous? := by
  obtain ⟨passed, ahead, eof, beyond⟩ := cursor
  -- One past the end of the file, the token before is still there: the end of the file itself.
  match beyond with
  | 0 =>
    cases passed with
    | nil => cases ahead <;> rfl
    | cons => simp [IndexedTokens.previous?, indexed, index, Cursor.tokens, previous?, last]
  | 1 =>
    obtain rfl : ahead = [] := proper.past.resolve_left Nat.one_ne_zero
    simp [IndexedTokens.previous?, indexed, index, Cursor.tokens, previous?]
  | count + 2 =>
    obtain rfl : ahead = [] := proper.past.resolve_left (Nat.succ_ne_zero _)
    simp [IndexedTokens.previous?, indexed, index, Cursor.tokens, previous?]

theorem indexed_atEnd (proper : cursor.Proper) : cursor.indexed.atEnd = cursor.atEnd := by
  rw [IndexedTokens.atEnd, proper.indexed_peek, peek, atEnd]
  cases ahead : cursor.ahead with
  | nil => exact proper.ends
  | cons token rest => exact proper.inner token (by simp [Cursor.tokens, ahead])

theorem indexed_advance (proper : cursor.Proper) :
    cursor.indexed.advance = cursor.advance.indexed := by
  rw [IndexedTokens.advance, proper.indexed_atEnd, atEnd, Cursor.advance]
  cases ahead : cursor.ahead with
  | nil => rfl
  | cons token rest =>
    ext1
    · simp [indexed, Cursor.tokens, ahead]
    · simp [indexed, index]
      omega

theorem advance (proper : cursor.Proper) : cursor.advance.Proper := by
  rw [Cursor.advance]
  cases ahead : cursor.ahead with
  | nil => exact proper
  | cons token rest =>
    refine ⟨?_, proper.ends, ?_⟩
    · simpa [Cursor.tokens, ahead] using proper.inner
    · exact .inl (proper.beyond_eq_zero (by simp [ahead]))

theorem truncate (proper : cursor.Proper) (limit : Nat) : (cursor.truncate limit).1.Proper := by
  rw [Cursor.truncate]
  split
  · exact proper
  · exact proper_placed (fun token member => proper.inner token (List.mem_of_mem_take member))
      proper.ends _

end Proper

theorem indexed_truncate (cursor : Cursor) (limit : Nat) :
    cursor.indexed.truncate limit =
      ((cursor.truncate limit).1.indexed, (cursor.truncate limit).2) := by
  rw [IndexedTokens.truncate, Cursor.truncate, length_indexed, Nat.add_sub_cancel]
  split
  · rfl
  · rename_i more
    have within : limit < cursor.tokens.length := by
      rw [length_tokens]
      omega
    refine Prod.ext ?_ ?_
    · ext1
      · simp [indexed, List.take_append_of_le_length (Nat.le_of_lt within)]
      · simp [indexed]
    · simp [indexed, List.getElem?_append_left within]

theorem indexed_refines :
    navigation.Refines IndexedTokens.navigation indexed Proper where
  peek := Proper.indexed_peek
  previous? := Proper.indexed_previous?
  atEnd := Proper.indexed_atEnd
  index _ := rfl
  movedSince _ _ := rfl
  advance := Proper.indexed_advance
  reset cursor index := by
    ext1
    · simp [IndexedTokens.navigation, IndexedTokens.reset, navigation, reset, indexed]
    · simp [IndexedTokens.navigation, IndexedTokens.reset, navigation, reset, indexed]
  truncate := indexed_truncate
  advance_sound := Proper.advance
  reset_sound proper index := proper_placed proper.inner proper.ends index
  truncate_sound := Proper.truncate

end Cursor

/-! Where a step fails. -/

theorem IndexedTokens.previous?_eq_none_iff (place : IndexedTokens) :
    place.previous? = none ↔ place.tokens.length < place.index := by
  have some := List.length_pos_iff.2 place.nonempty
  rw [previous?, List.getElem?_eq_none_iff]
  omega

theorem CursorAnswer.ofToken?_eq_failed_iff {token : Option Token} :
    ofToken? token = .failed ↔ token = none := by
  cases token <;> simp [ofToken?]

namespace Cursor

variable {visit : Marked Cursor}

theorem step_eq_failed_iff (proper : visit.place.Proper) (step : CursorStep) :
    (navigation.step visit step).2 = .failed ↔
      (step = .previous ∨ step = .advance ∧ visit.place.atEnd) ∧
        visit.place.indexed.tokens.length < visit.place.indexed.index := by
  have behind : visit.place.previous? = none ↔ _ :=
    proper.indexed_previous? ▸ visit.place.indexed.previous?_eq_none_iff
  cases step with
  | previous =>
    rw [Navigation.step, CursorAnswer.ofToken?_eq_failed_iff]
    simpa [navigation] using behind
  | advance =>
    rw [Navigation.step, CursorAnswer.ofToken?_eq_failed_iff]
    cases ahead : visit.place.ahead with
    | nil => simpa [navigation, advance_of_nil ahead, atEnd, ahead] using behind
    | cons token rest =>
      have here := proper.beyond_eq_zero (by simp [ahead])
      simp [navigation, Cursor.advance, ahead, previous?, here, atEnd]
  | reset mark => cases marked : visit.marks[mark]? <;> simp [Navigation.step, marked]
  | movedSince mark => cases marked : visit.marks[mark]? <;> simp [Navigation.step, marked]
  | _ => simp [Navigation.step]

/-- No index that is noted lies past the end of the file by more than one. -/
def Within (visit : Marked Cursor) : Prop :=
  ∀ index ∈ navigation.indices visit, index ≤ visit.place.size + 1

/-- Tokens are cut off below an index that is noted. -/
def CutsBelow (visit : Marked Cursor) (step : CursorStep) : Prop :=
  ∃ limit, step = .truncate limit ∧ ∃ index ∈ navigation.indices visit, limit + 1 < index

theorem Within.advance {marks : List Nat} {cursor : Cursor} (within : Within ⟨cursor, marks⟩)
    (proper : cursor.Proper) : Within ⟨cursor.advance, marks⟩ := by
  obtain ⟨here, marked⟩ := List.forall_mem_cons.1 within
  cases ahead : cursor.ahead with
  | nil => rwa [advance_of_nil ahead]
  | cons token rest =>
    have least := proper.beyond_eq_zero (by simp [ahead])
    have size : cursor.advance.size = cursor.size := by
      simp only [Cursor.advance, ahead, Cursor.size, List.length_cons]
      omega
    have index : cursor.advance.index ≤ cursor.size := by
      simp only [Cursor.advance, ahead, Cursor.index, Cursor.size, List.length_cons, least]
      omega
    refine List.forall_mem_cons.2 ⟨?_, fun mark member => ?_⟩
    · exact size ▸ Nat.le_succ_of_le index
    · exact size ▸ marked mark member

theorem Within.truncate {marks : List Nat} {cursor : Cursor} {limit : Nat}
    (within : Within ⟨cursor, marks⟩)
    (above : ∀ index ∈ cursor.index :: marks, index ≤ limit + 1) :
    Within ⟨(cursor.truncate limit).1, marks⟩ := by
  rw [Cursor.truncate]
  split
  · exact within
  · rename_i more
    have size : (placed cursor.eof (cursor.tokens.take limit) cursor.index).size = limit := by
      rw [size_placed, List.length_take, length_tokens]
      omega
    obtain ⟨here, marked⟩ := List.forall_mem_cons.1 above
    refine List.forall_mem_cons.2 ⟨?_, fun mark member => ?_⟩
    · show (placed cursor.eof (cursor.tokens.take limit) cursor.index).index ≤ _
      rw [index_placed, size]
      exact here
    · rw [size]
      exact marked mark member

theorem Within.step (within : Within visit) (proper : visit.place.Proper) (step : CursorStep) :
    Within (navigation.step visit step).1 ∨ CutsBelow visit step := by
  obtain ⟨here, marked⟩ := List.forall_mem_cons.1 within
  cases step with
  | advance => exact .inl (Within.advance within proper)
  | mark =>
    refine .inl (List.forall_mem_cons.2 ⟨here, List.forall_mem_append.2 ⟨marked, ?_⟩⟩)
    exact List.forall_mem_singleton.2 here
  | reset mark =>
    simp only [Navigation.step]
    cases found : visit.marks[mark]? with
    | none => exact .inl within
    | some index =>
      have size : (visit.place.reset index).size = visit.place.size := by
        rw [reset, size_placed, length_tokens]
      refine .inl (List.forall_mem_cons.2 ⟨?_, fun mark member => ?_⟩)
      · show (visit.place.reset index).index ≤ _
        rw [reset, index_placed]
        exact size ▸ marked index (List.mem_of_getElem? found)
      · exact size ▸ marked mark member
  | movedSince mark =>
    simp only [Navigation.step]
    cases visit.marks[mark]? with
    | none => exact .inl within
    | some index => exact .inl within
  | truncate limit =>
    by_cases cuts : ∃ index ∈ navigation.indices visit, limit + 1 < index
    · exact .inr ⟨limit, rfl, cuts⟩
    · have above : ∀ index ∈ navigation.indices visit, index ≤ limit + 1 :=
        fun index member => Nat.le_of_not_lt fun below => cuts ⟨index, member, below⟩
      exact .inl (Within.truncate within above)
  | _ => exact .inl within

theorem Within.after (within : Within visit) (proper : visit.place.Proper)
    (steps : List CursorStep) :
    Within (navigation.after visit steps) ∨ ∃ before step behind,
      steps = before ++ step :: behind ∧ CutsBelow (navigation.after visit before) step := by
  induction steps generalizing visit with
  | nil => exact .inl within
  | cons step steps ih =>
    rcases within.step proper step with next | cuts
    · rcases ih next (indexed_refines.step_sound proper step) with last | cuts
      · exact .inl last
      · obtain ⟨before, cut, behind, rfl, below⟩ := cuts
        exact .inr ⟨step :: before, cut, behind, rfl, below⟩
    · exact .inr ⟨[], step, steps, rfl, cuts⟩

theorem within_ofTokens (tokens : List Token) : Within { place := ofTokens tokens } := by
  rintro index member
  obtain rfl := List.mem_singleton.1 member
  exact Nat.zero_le _

theorem Within.indexed (within : Within visit) :
    visit.place.indexed.index ≤ visit.place.indexed.tokens.length := by
  have here := within visit.place.index List.mem_cons_self
  rwa [length_indexed]

/-- Whatever is done with a cursor over some tokens, it answers as the list with an index does. A
step fails only if it looks back from an index past the list, and the index comes to lie there only
after a cut below one that is noted. -/
theorem answers_indexed {tokens : List Token}
    (only : ∀ token ∈ tokens.dropLast, token.isEndOfFile = false) (steps : List CursorStep) :
    let start : Marked Cursor := { place := ofTokens tokens }
    let listed : Marked IndexedTokens := { place := .ofTokens tokens }
    let reached := IndexedTokens.navigation.after listed steps
    navigation.answers start steps = IndexedTokens.navigation.answers listed steps ∧
      (∀ step, (navigation.step (navigation.after start steps) step).2 = .failed ↔
        (step = .previous ∨ step = .advance ∧ reached.place.atEnd) ∧
          reached.place.tokens.length < reached.place.index) ∧
      (reached.place.tokens.length < reached.place.index →
        ∃ before limit behind, steps = before ++ .truncate limit :: behind ∧
          ∃ index ∈ IndexedTokens.navigation.indices (IndexedTokens.navigation.after listed before),
            limit + 1 < index) := by
  intro start listed
  have proper : start.place.Proper := proper_ofTokens only
  have same : start.map Cursor.indexed = listed :=
    congrArg (Marked.mk · []) (indexed_ofTokens tokens)
  have leads (steps : List CursorStep) : IndexedTokens.navigation.after listed steps =
      (navigation.after start steps).map Cursor.indexed :=
    same ▸ (indexed_refines.after_eq start proper steps).2
  have there := (indexed_refines.after_eq start proper steps).1
  refine ⟨?_, fun step => ?_, fun past => ?_⟩
  · exact same ▸ indexed_refines.answers_eq start proper steps
  · rw [step_eq_failed_iff there, leads steps]
    simp only [Marked.map, there.indexed_atEnd]
  · rw [leads steps] at past
    rcases (within_ofTokens tokens).after proper steps with within | cuts
    · exact absurd past (Nat.not_lt.2 within.indexed)
    · obtain ⟨before, _, behind, split, limit, rfl, below⟩ := cuts
      refine ⟨before, limit, behind, split, ?_⟩
      rw [leads before]
      exact below

/-- Six tokens, a comment and the end of the file among them. -/
def notedTokens : List Token := (Lexed.ofText "a // note\nb c".toList).tokens

/-- A mark at the last name, and a cut far below it. -/
def cutSteps : List CursorStep :=
  [.advance, .advance, .advance, .mark, .peek 7, .truncate 1, .movedSince 0, .reset 0, .previous]

theorem answers_indexed_cut :
    (∀ token ∈ notedTokens.dropLast, token.isEndOfFile = false) ∧
      navigation.answers { place := ofTokens notedTokens } cutSteps =
        IndexedTokens.navigation.answers { place := .ofTokens notedTokens } cutSteps ∧
      (navigation.answers { place := ofTokens notedTokens } cutSteps).getLast? = some .failed ∧
      ∃ before limit behind, cutSteps = before ++ .truncate limit :: behind ∧
        ∃ index ∈ IndexedTokens.navigation.indices
            (IndexedTokens.navigation.after { place := .ofTokens notedTokens } before),
          limit + 1 < index := by
  have only : ∀ token ∈ notedTokens.dropLast, token.isEndOfFile = false := by decide +kernel
  obtain ⟨same, _, cuts⟩ := answers_indexed only cutSteps
  exact ⟨only, same, by decide +kernel, cuts (by decide +kernel)⟩

end Cursor

end MoSyntax
