import MoSyntax.Proofs.Reading.Logic

/-!
Readings of the phrases that all constructs share: single tokens, line breaks, names, and lists
with commas between the items.
-/
namespace MoSyntax

def Breaks (tokens : List Token) : Prop := ∀ token ∈ tokens, token.kind = .lineBreak

def Nothing (tokens : List Token) : Prop := tokens = []

/-- The token is an identifier, and the name is what it says where it stands. -/
def Token.Names (token : Token) (name : Ident) : Prop :=
  token.kind = .identifier name.name ∧ name.span = token.span

inductive SegmentReading : Reading Ident
  | segment {colon token name} (mark : colon.kind = .punctuation .colon)
      (names : token.Names name) : SegmentReading [colon, token] name []

inductive NameReading : List Token → Name → Prop
  | ident {token name} (names : token.Names name) : NameReading [token] (.ident name)
  | path {token first used rest} (names : token.Names first)
      (segments : Repeated SegmentReading Nothing used rest []) (some : rest ≠ []) :
      NameReading (token :: used) (.path ⟨first :: rest⟩)

/-- The span from the first token to the last. -/
def covered (tokens : List Token) : Span :=
  match tokens.head?, tokens.getLast? with
  | some first, some last => first.span.through last.span
  | _, _ => .empty 0

variable {α : Type}

/-- A comma and an item, with line breaks around the item. -/
inductive NextItem (each : Reading α) : Reading α
  | next {comma before used value reports behind} (mark : comma.kind = .punctuation .comma)
      (breaks : Breaks before) (item : each used value reports) (more : Breaks behind) :
      NextItem each (comma :: (before ++ (used ++ behind))) value reports

/-- What stands between two brackets: no items at all, or items with commas between them. -/
inductive ItemsReading (each : Reading α) : Reading (List α)
  | none {used} (breaks : Breaks used) : ItemsReading each used [] []
  | some {before used value reports behind left values later} (breaks : Breaks before)
      (item : each used value reports) (more : Breaks behind)
      (others : Repeated (NextItem each) Nothing left values later) :
      ItemsReading each (before ++ (used ++ (behind ++ left))) (value :: values) (reports ++ later)

inductive OptionalReading (each : Reading α) : Reading (Option α)
  | none : OptionalReading each [] none []
  | some {used value reports} (reads : each used value reports) :
      OptionalReading each used (some value) reports

def Mark (kind : TokenKind) (used : List Token) (span : Span) : Prop :=
  ∃ token, used = [token] ∧ token.kind = kind ∧ span = token.span

theorem Mark.ne_nil {kind : TokenKind} {used : List Token} {span : Span}
    (mark : Mark kind used span) : used ≠ [] := by
  obtain ⟨token, rfl, _⟩ := mark
  simp

theorem NameReading.ne_nil {used name} (reads : NameReading used name) : used ≠ [] := by
  cases reads <;> simp

theorem Repeated.silent {each : Reading α} {rest : List Token → Prop} {used values reports}
    (repeated : Repeated each rest used values reports)
    (silent : ∀ used value reports, each used value reports → reports = []) : reports = [] := by
  induction repeated with
  | done => rfl
  | more first _ ih => rw [silent _ _ _ first, ih, List.append_nil]

section
variable {each : Reading α} {holds : α → Prop}

theorem ItemsReading.ensures (all : Ensures each holds) {used values reports}
    (reads : ItemsReading each used values reports) : ∀ value ∈ values, holds value := by
  cases reads with
  | none => exact List.forall_mem_nil _
  | some _ item _ others =>
    refine List.forall_mem_cons.2 ⟨all _ _ _ item, others.ensures ?_⟩
    rintro _ _ _ ⟨_, _, item, _⟩
    exact all _ _ _ item

theorem OptionalReading.ensures (all : Ensures each holds) {used value reports}
    (reads : OptionalReading each used value reports) : ∀ found ∈ value, holds found := by
  cases reads with
  | none => simp
  | some reads => simpa using all _ _ _ reads

end

namespace Parser

theorem SoundAt.check_bind {β : Type} {start : Cursor} {kind : TokenKind} {next : Bool → Parser β}
    {whole : Reading β} (tail : SoundAt start whole (next (start.current.kind == kind))) :
    SoundAt start whole (check kind >>= next) := by
  intro intact
  obtain ⟨missteps, used, passes, holds⟩ := tail intact
  exact ⟨missteps, used, passes, holds⟩

theorem SoundAt.skipWhile {start : Cursor} (holds : Token → Bool) :
    SoundAt start (fun used _ reports => used = start.ahead.takeWhile holds ∧ reports = [])
      (Parser.skip (start.ahead.takeWhile holds).length) :=
  SoundAt.skip _ (start.ahead.dropWhile holds) List.takeWhile_append_dropWhile.symm rfl

theorem skipLineBreaks_at (start : Cursor) :
    SoundAt start (fun used _ reports => reports = [] ∧
      used = start.ahead.takeWhile fun token => token.kind == .lineBreak) skipLineBreaks := by
  refine SoundAt.here_bind ((SoundAt.skipWhile _).imp ?_)
  rintro used _ _ ⟨rfl, rfl⟩
  exact ⟨rfl, rfl⟩

theorem breaks_takeWhile (tokens : List Token) :
    Breaks (tokens.takeWhile fun token => token.kind == .lineBreak) := by
  intro token member
  simpa using List.all_eq_true.1 List.all_takeWhile token member

theorem skipLineBreaks_sound :
    Sound (fun used _ reports => Breaks used ∧ reports = []) skipLineBreaks := by
  intro start
  refine (skipLineBreaks_at start).imp ?_
  rintro used _ _ ⟨rfl, rfl⟩
  exact ⟨breaks_takeWhile _, rfl⟩

theorem expect_sound {kind : TokenKind} (some : kind ≠ .endOfFile) (message : String) :
    Sound (fun used span reports => Mark kind used span ∧ reports = [])
      (expect kind message) := by
  intro start
  apply SoundAt.current_bind
  split
  · rename_i found
    have found : start.current.kind = kind := by simpa using found
    apply SoundAt.advance_bind (found ▸ some)
    intro stop _
    exact SoundAt.pure ⟨⟨_, rfl, found, rfl⟩, rfl⟩
  · exact SoundAt.fail_with _

theorem accept_sound {kind : TokenKind} (some : kind ≠ .endOfFile) :
    Sound (fun used passed reports => reports = [] ∧
      if passed then ∃ token, used = [token] ∧ token.kind = kind else used = [])
      (accept kind) := by
  intro start
  apply SoundAt.check_bind
  split
  · rename_i found
    have found : start.current.kind = kind := by simpa using found
    apply SoundAt.advance_bind (found ▸ some)
    intro stop _
    exact SoundAt.pure ⟨rfl, _, rfl, found⟩
  · exact SoundAt.pure ⟨rfl, rfl⟩

theorem ident_sound (message : String) :
    Sound (fun used name reports => (∃ token, used = [token] ∧ token.Names name) ∧ reports = [])
      (ident message) := by
  intro start
  apply SoundAt.current_bind
  split
  · rename_i name found
    apply SoundAt.advance_bind (by simp [found])
    intro stop _
    exact SoundAt.pure ⟨⟨_, rfl, found, rfl⟩, rfl⟩
  · exact SoundAt.fail_with _

theorem nextSegment_sound : Sound (Round SegmentReading Nothing) nextSegment := by
  intro start
  apply SoundAt.here_bind
  split
  · rename_i next
    obtain ⟨mark, _⟩ : start.current.kind = .punctuation .colon ∧ _ := by simpa using next
    apply SoundAt.advance_bind (by simp [mark])
    intro stop _
    apply SoundAt.bind (ident_sound _ stop)
    rintro _ name _ _ _ ⟨⟨token, rfl, names⟩, rfl⟩
    exact SoundAt.pure ⟨.segment mark names, by simp⟩
  · exact SoundAt.pure ⟨rfl, rfl⟩

theorem name_sound (message : String) :
    Sound (fun used name reports => NameReading used name ∧ reports = []) (name message) := by
  intro start
  apply SoundAt.bind (ident_sound message start)
  rintro _ first _ _ _ ⟨⟨token, rfl, names⟩, rfl⟩
  apply SoundAt.bind (Sound.many nextSegment_sound _)
  intro used rest reports _ _ segments
  obtain rfl := segments.silent (by rintro _ _ _ ⟨⟩; rfl)
  split
  · cases segments with
    | done none => exact SoundAt.pure ⟨by simpa [show _ = [] from none] using .ident names, rfl⟩
  · rename_i some
    exact SoundAt.pure ⟨by simpa using .path names segments (by simpa using some), rfl⟩

variable {each : Reading α} {item : Parser α}

theorem nextItem_sound (sound : Sound each item) :
    Sound (Round (NextItem each) Nothing) (nextItem item) := by
  intro start
  apply SoundAt.bind (accept_sound (by simp) start)
  rintro used passed _ _ _ ⟨rfl, found⟩
  cases passed with
  | false => exact SoundAt.pure ⟨by simpa [Nothing] using found, rfl⟩
  | true =>
    obtain ⟨comma, rfl, mark⟩ := found
    apply SoundAt.bind (skipLineBreaks_sound _)
    rintro before _ _ _ _ ⟨breaks, rfl⟩
    apply SoundAt.bind (sound _)
    intro used value reports _ _ item
    apply SoundAt.bind (skipLineBreaks_sound _)
    rintro behind _ _ _ _ ⟨more, rfl⟩
    exact SoundAt.pure ⟨by simpa using .next mark breaks item more, by simp⟩

theorem commaSeparated_sound (sound : Sound each item) :
    Sound (fun used values reports => ∀ before, Breaks before →
      ItemsReading each (before ++ used) values reports) (commaSeparated item) := by
  intro start
  apply SoundAt.bind (sound start)
  intro used value reports _ _ first
  apply SoundAt.bind (skipLineBreaks_sound _)
  rintro behind _ _ _ _ ⟨more, rfl⟩
  apply SoundAt.bind (Sound.many (nextItem_sound sound) _)
  intro left values later _ _ others
  refine SoundAt.pure ?_
  intro before breaks
  simpa using .some breaks first more others

theorem itemsBefore_sound (sound : Sound each item) (closing : Punctuation) :
    Sound (ItemsReading each) (itemsBefore item closing) := by
  intro start
  apply SoundAt.bind (skipLineBreaks_sound start)
  rintro before _ _ _ _ ⟨breaks, rfl⟩
  apply SoundAt.check_bind
  split
  · exact SoundAt.pure (by simpa using .none breaks)
  · exact (commaSeparated_sound sound _).imp fun _ _ _ items => items before breaks

theorem listUntil_sound (sound : Sound each item) (closing : Punctuation) (message : String) :
    Sound (fun used list reports => ∃ items last, used = items ++ last ∧
      ItemsReading each items list.1 reports ∧ Mark (.punctuation closing) last list.2)
      (listUntil item closing message) := by
  intro start
  apply SoundAt.bind (itemsBefore_sound sound closing start)
  intro items values reports _ _ reading
  apply SoundAt.bind (expect_sound (by simp) message _)
  rintro last span _ _ _ ⟨mark, rfl⟩
  exact SoundAt.pure ⟨items, last, by simp, by simpa using reading, mark⟩

end Parser

end MoSyntax
