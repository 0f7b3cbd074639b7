import MoSyntax.Proofs.Deepening.Logic
import MoSyntax.Proofs.Reading.Skip

/-!
How much is reported of the tokens that are passed. Each report is paid for by a token, at most one
by each; a failure may owe one more, which the first token behind it pays for. What begins with a
token of its own, such as a keyword, can settle what a part behind it owes.
-/
namespace MoSyntax

/-- The report is about the grammar or the limit on nesting. -/
def Diagnostic.FromGrammar (diagnostic : Diagnostic) : Prop :=
  diagnostic.fault.category = .syntactic ∨ diagnostic.fault = .recursionLimitExceeded

theorem Cursor.advanceBy_take (count : Nat) (start : Cursor) :
    start.Passes (start.ahead.take count) (start.advanceBy count) := by
  induction count generalizing start with
  | zero => exact .refl start
  | succ count ih =>
    rw [advanceBy]
    cases ahead : start.ahead with
    | nil =>
      have stays : start.advance = start := by rw [advance, ahead]
      simpa [stays, ahead] using ih start
    | cons token rest =>
      obtain ⟨passes, left⟩ := advanceBy_passes [token] rest ahead
      have more := ih start.advance
      rw [show start.advance.ahead = rest from left] at more
      exact passes.trans more

variable {α β : Type}

/-- How many reports go with how many tokens passed, in a reply and in a failure. -/
structure Reply.Tallied (start : Cursor) (kept : α → Nat → Nat → Prop) (lost : Nat → Nat → Prop)
    (reply : Reply α) : Prop where
  told : ∀ report ∈ reply.reports, report.FromGrammar
  passes : ∃ used, start.Passes used reply.cursor ∧
    match reply.value with
    | some value => kept value used.length reply.reports.length
    | none => lost used.length reply.reports.length

namespace Parser

/-- From an intact cursor the numbers of tokens and reports are as told. -/
def TalliedAt (start : Cursor) (kept : α → Nat → Nat → Prop) (lost : Nat → Nat → Prop)
    (parser : Parser α) : Prop :=
  start.Intact → (parser start).Tallied start kept lost

/-- A failure reports no more than it passes, or one thing where it passes nothing. -/
def Settled (used told : Nat) : Prop := told ≤ max used 1

/-- A failure may owe one report more than it passes tokens. -/
def Owing (used told : Nat) : Prop := told ≤ used + 1

/-- The parser pays for all its reports, and some tokens are left to pay for others. -/
def FirmAt (spare : Nat) (start : Cursor) (parser : Parser α) : Prop :=
  TalliedAt start (fun _ used told => told + spare ≤ used) Settled parser

def Firm (spare : Nat) (parser : Parser α) : Prop := ∀ start, FirmAt spare start parser

/-- The parser may owe some reports, and one where it fails. -/
def LooseAt (owed : Nat) (start : Cursor) (parser : Parser α) : Prop :=
  TalliedAt start (fun _ used told => told ≤ used + owed) Owing parser

def Loose (owed : Nat) (parser : Parser α) : Prop := ∀ start, LooseAt owed start parser

variable {start : Cursor}

namespace TalliedAt

variable {kept further : α → Nat → Nat → Prop} {lost worse : Nat → Nat → Prop} {parser : Parser α}

theorem imp (tallied : TalliedAt start kept lost parser)
    (keeps : ∀ value used told, kept value used told → further value used told)
    (loses : ∀ used told, lost used told → worse used told) :
    TalliedAt start further worse parser := by
  intro intact
  obtain ⟨told, used, passes, holds⟩ := tallied intact
  refine ⟨told, used, passes, ?_⟩
  cases value : (parser start).value with
  | none => exact loses _ _ (by simpa [value] using holds)
  | some found => exact keeps _ _ _ (by simpa [value] using holds)

theorem pure {value : α} (holds : kept value 0 0) : TalliedAt start kept lost (Pure.pure value) :=
  fun _ => ⟨List.forall_mem_nil _, [], .refl start, holds⟩

theorem reject {diagnostic : Diagnostic} (wrong : diagnostic.FromGrammar) (holds : lost 0 1) :
    TalliedAt start kept lost (reject diagnostic) :=
  fun _ => ⟨by simpa [Parser.reject] using wrong, [], .refl start, holds⟩

theorem report {kept : Unit → Nat → Nat → Prop} {diagnostic : Diagnostic}
    (wrong : diagnostic.FromGrammar) (holds : kept () 0 1) :
    TalliedAt start kept lost (report diagnostic) :=
  fun _ => ⟨by simpa [Parser.report] using wrong, [], .refl start, holds⟩

theorem of_sound {reading : Reading α} (sound : SoundAt start reading parser)
    (found : (parser start).value.isSome)
    (reads : ∀ used value reports, reading used value reports →
      (∀ report ∈ reports, report.FromGrammar) ∧ kept value used.length reports.length) :
    TalliedAt start kept lost parser := by
  intro intact
  obtain ⟨_, used, passes, holds⟩ := sound intact
  obtain ⟨value, some⟩ := Option.isSome_iff_exists.1 found
  rw [some] at holds
  obtain ⟨told, counted⟩ := reads _ _ _ holds
  exact ⟨told, used, passes, by rwa [some]⟩

theorem bind {first : Parser α} {next : α → Parser β} {whole : β → Nat → Nat → Prop}
    (head : TalliedAt start kept lost first)
    (tail : ∀ value used told stop, start.Passes used stop → kept value used.length told →
      TalliedAt stop (fun found more later => whole found (used.length + more) (told + later))
        (fun more later => worse (used.length + more) (told + later)) (next value))
    (fails : ∀ used told, lost used told → worse used told) :
    TalliedAt start whole worse (first >>= next) := by
  intro intact
  obtain ⟨told, used, passes, holds⟩ := head intact
  cases found : (first start).value with
  | none =>
    rw [bind_of_none found]
    exact ⟨told, used, passes, fails _ _ (by simpa [found] using holds)⟩
  | some value =>
    rw [bind_of_some found]
    rw [found] at holds
    obtain ⟨others, more, further, result⟩ := tail value used _ _ passes holds (passes.intact intact)
    refine ⟨List.forall_mem_append.2 ⟨told, others⟩, used ++ more, passes.trans further, ?_⟩
    simpa [Reply.after] using result

theorem map {whole : β → Nat → Nat → Prop} (change : α → β)
    (tallied : TalliedAt start (fun value => whole (change value)) lost parser) :
    TalliedAt start whole lost (parser >>= fun value => Pure.pure (change value)) :=
  tallied.bind (fun _ _ _ _ _ counted => pure counted) fun _ _ => id

theorem here_bind {next : Cursor → Parser α} (tail : TalliedAt start kept lost (next start)) :
    TalliedAt start kept lost (here >>= next) := by
  intro intact
  obtain ⟨told, used, passes, holds⟩ := tail intact
  exact ⟨told, used, passes, holds⟩

theorem current_bind {next : Token → Parser α}
    (tail : TalliedAt start kept lost (next start.current)) :
    TalliedAt start kept lost (current >>= next) := here_bind tail

theorem note_bind {event : Event} {next : Unit → Parser α}
    (tail : TalliedAt start kept lost (next ())) :
    TalliedAt start kept lost (note event >>= next) := by
  intro intact
  obtain ⟨told, used, passes, holds⟩ := tail intact
  exact ⟨told, used, passes, holds⟩

theorem previous_bind {next : Token → Parser α}
    (tail : TalliedAt start kept lost (next start.last)) :
    TalliedAt start kept lost (previous >>= next) := by
  intro intact
  obtain ⟨told, used, passes, holds⟩ := tail intact
  have found : previous start = { value := some start.last, cursor := start } := by
    rw [previous, Cursor.previous?_of_intact intact]
  rw [bind_of_some (congrArg Reply.value found), found]
  exact ⟨told, used, passes, holds⟩

theorem inside (depth : Nat) (tallied : TalliedAt start kept lost parser) :
    TalliedAt start kept lost (Parser.inside depth parser) := by
  intro intact
  obtain ⟨told, used, passes, holds⟩ := tallied intact
  rw [Parser.inside]
  split <;> exact ⟨told, used, passes, holds⟩

theorem attempt (trial : Trial) (tallied : TalliedAt start kept lost parser) :
    TalliedAt start (fun value? used told => match value? with
      | some value => kept value used told
      | none => used = 0 ∧ told = 0) worse (Parser.attempt trial parser) := by
  intro intact
  obtain ⟨told, used, passes, holds⟩ := tallied intact
  cases found : (parser start).value with
  | none =>
    simp only [Parser.attempt, found]
    exact ⟨List.forall_mem_nil _, [], .refl start, rfl, rfl⟩
  | some value =>
    rw [found] at holds
    simp only [Parser.attempt, found, Sound.matched_of_intact (passes.intact intact)]
    exact ⟨by simpa [Reply.after] using told, used, passes, by simpa [Reply.after] using holds⟩

theorem unlessDeclined {choice : Parser (Option α)}
    (first : TalliedAt start (fun value? used told =>
      ∀ value, value? = some value → kept value used told) lost choice)
    (second : TalliedAt start kept lost parser) :
    TalliedAt start kept lost (Parser.unlessDeclined choice parser) := by
  intro intact
  obtain ⟨told, used, passes, holds⟩ := first intact
  match found : (choice start).value with
  | none =>
    simp only [found] at holds
    simp only [Parser.unlessDeclined, found]
    exact ⟨told, used, passes, holds⟩
  | some (some value) =>
    simp only [found] at holds
    simp only [Parser.unlessDeclined, found]
    exact ⟨told, used, passes, holds value rfl⟩
  | some none =>
    obtain ⟨others, more, further, result⟩ := second intact
    simp only [Parser.unlessDeclined, found]
    exact ⟨by simpa [Reply.after] using others, more, further, by simpa [Reply.after] using result⟩

/-- A recovery that gets on passes a token that pays for what the failure owes. -/
theorem recover {recovery : Parser Unit} (tallied : TalliedAt start kept Settled parser)
    (recovers : ∀ used stop, start.Passes used stop →
      SoundAt stop (fun more _ reports => reports = [] ∧ used ++ more ≠ []) recovery)
    (always : ∀ cursor, (recovery cursor).value = some ()) :
    TalliedAt start (fun value? used told => match value? with
      | some value => kept value used told
      | none => told ≤ used) worse (Parser.recover parser recovery) := by
  intro intact
  obtain ⟨told, used, passes, holds⟩ := tallied intact
  cases found : (parser start).value with
  | some value =>
    rw [found] at holds
    simp only [Parser.recover, found]
    exact ⟨told, used, passes, holds⟩
  | none =>
    obtain ⟨_, more, further, result⟩ := recovers used _ passes (passes.intact intact)
    simp only [always] at result
    obtain ⟨silent, moved⟩ := result
    have count := List.length_pos_iff.2 moved
    simp only [found, Settled] at holds
    simp only [Parser.recover, found]
    refine ⟨by simpa [Reply.after, silent] using told, used ++ more, passes.trans further, ?_⟩
    simp only [Reply.after, silent, List.append_nil]
    rw [List.length_append] at count ⊢
    omega

end TalliedAt

/-! What pays for itself, and what follows a token to spare. -/

variable {parser first : Parser α} {next : α → Parser β} {spare owed : Nat}

theorem FirmAt.loose (firm : FirmAt spare start parser) : LooseAt 0 start parser :=
  TalliedAt.imp firm (fun _ _ _ => by omega) fun _ _ => by
    rw [Settled, Owing]
    omega

theorem Firm.loose (firm : Firm spare parser) : Loose 0 parser := fun start => (firm start).loose

theorem Firm.mono (firm : Firm (spare + 1) parser) : Firm spare parser :=
  fun start => TalliedAt.imp (firm start) (fun _ _ _ => by omega) fun _ _ => id

theorem FirmAt.bind (head : FirmAt 1 start first) (tail : ∀ value, Loose 0 (next value)) :
    FirmAt 1 start (first >>= next) := by
  refine TalliedAt.bind head (fun value used told stop passes paid => ?_) fun _ _ => id
  refine TalliedAt.imp (tail value stop) (fun _ _ _ => ?_) fun _ _ => ?_
  · omega
  · rw [Settled, Owing]
    omega

theorem Firm.bind (head : Firm 1 first) (tail : ∀ value, Loose 0 (next value)) :
    Firm 1 (first >>= next) := fun start => (head start).bind tail

theorem Firm.settle (head : Firm 1 first) (tail : ∀ value, Loose 1 (next value)) :
    Firm 0 (first >>= next) := by
  refine fun start =>
    TalliedAt.bind (head start) (fun value used told stop passes paid => ?_) fun _ _ => id
  refine TalliedAt.imp (tail value stop) (fun _ _ _ => ?_) fun _ _ => ?_
  · omega
  · rw [Settled, Owing]
    omega

theorem LooseAt.bind (head : LooseAt 0 start first) (tail : ∀ value, Loose owed (next value)) :
    LooseAt owed start (first >>= next) := by
  refine TalliedAt.bind head (fun value used told stop passes paid => ?_) fun _ _ => id
  refine TalliedAt.imp (tail value stop) (fun _ _ _ => ?_) fun _ _ => ?_
  · omega
  · rw [Owing, Owing]
    omega

theorem Loose.bind (head : Loose 0 first) (tail : ∀ value, Loose owed (next value)) :
    Loose owed (first >>= next) := fun start => (head start).bind tail

theorem Loose.map (loose : Loose owed first) (change : α → β) :
    Loose owed (first >>= fun value => pure (change value)) :=
  fun start => TalliedAt.map change (loose start)

theorem Loose.pure (value : α) : Loose owed (Pure.pure value) :=
  fun _ => TalliedAt.pure (Nat.zero_le _)

theorem FirmAt.reject {diagnostic : Diagnostic} (wrong : diagnostic.FromGrammar) :
    FirmAt spare start (reject diagnostic : Parser α) :=
  TalliedAt.reject wrong (Nat.le_refl 1)

/-- What is skipped can pay for what comes behind it. -/
theorem LooseAt.silent_bind {reading : Reading α} (sound : SoundAt start reading first)
    (found : (first start).value.isSome)
    (silent : ∀ used value reports, reading used value reports → reports = [])
    (tail : ∀ used value stop, start.Passes used stop → reading used value [] →
      LooseAt owed stop (next value)) : LooseAt owed start (first >>= next) := by
  intro intact
  obtain ⟨_, used, passes, holds⟩ := sound intact
  obtain ⟨value, some⟩ := Option.isSome_iff_exists.1 found
  rw [some] at holds
  have quiet := silent _ _ _ holds
  rw [quiet] at holds
  obtain ⟨told, more, further, counted⟩ := tail used value _ passes holds (passes.intact intact)
  rw [bind_of_some some, Reply.after, quiet]
  refine ⟨told, used ++ more, passes.trans further, ?_⟩
  dsimp only [List.nil_append] at counted ⊢
  rw [List.length_append]
  split at counted
  · omega
  · rw [Owing] at counted ⊢
    omega

theorem FirmAt.advance_bind {next : Unit → Parser β} (some : start.current.kind ≠ .endOfFile)
    (tail : Loose 0 (next ())) : FirmAt 1 start (advance >>= next) := by
  intro intact
  obtain ⟨rest, ahead⟩ := Cursor.ahead_of_current intact some
  have passed : FirmAt 1 start advance := by
    refine TalliedAt.of_sound (SoundAt.skip [start.current] rest ahead rfl) rfl ?_
    rintro _ _ _ ⟨rfl, rfl⟩
    exact ⟨List.forall_mem_nil _, Nat.le_refl 1⟩
  exact passed.bind (fun _ => tail) intact

theorem Loose.manyUpTo {step : Parser (Option α)} (rounds : Loose 0 step) (count : Nat) :
    Loose 0 (Parser.manyUpTo count step) := by
  induction count with
  | zero => exact fun start _ => ⟨List.forall_mem_nil _, [], .refl start, Nat.zero_le 1⟩
  | succ count ih =>
    refine rounds.bind fun value => ?_
    cases value with
    | none => exact .pure []
    | some value => exact ih.bind fun _ => .pure _

theorem Loose.many {step : Parser (Option α)} (rounds : Loose 0 step) : Loose 0 (Parser.many step) :=
  fun start => rounds.manyUpTo _ start

/-! Single tokens, names, and lists. -/

theorem skip_loose (count : Nat) : Loose 0 (skip count) :=
  fun start _ => ⟨List.forall_mem_nil _, _, start.advanceBy_take count, Nat.zero_le _⟩

theorem skipLineBreaks_loose : Loose 0 skipLineBreaks := fun _ => TalliedAt.here_bind (skip_loose _ _)

theorem expect_firm {kind : TokenKind} (some : kind ≠ .endOfFile) (message : String) :
    Firm 1 (expect kind message) := by
  intro start
  apply TalliedAt.current_bind
  split
  · rename_i found
    have found : start.current.kind = kind := by simpa using found
    exact FirmAt.advance_bind (found ▸ some) (.pure _)
  · exact FirmAt.reject (.inl rfl)

theorem accept_loose {kind : TokenKind} (some : kind ≠ .endOfFile) : Loose 0 (accept kind) := by
  intro start
  apply TalliedAt.here_bind
  split
  · rename_i found
    have found : start.current.kind = kind := by simpa using found
    exact FirmAt.loose (FirmAt.advance_bind (found ▸ some) (.pure _))
  · exact Loose.pure _ _

theorem ident_firm (message : String) : Firm 1 (ident message) := by
  intro start
  apply TalliedAt.current_bind
  split
  · rename_i name found
    have word : start.current.kind ≠ .endOfFile := by simp [found]
    exact FirmAt.advance_bind word (.pure _)
  · exact FirmAt.reject (.inl rfl)

theorem nextSegment_loose : Loose 0 nextSegment := by
  intro start
  apply TalliedAt.here_bind
  split
  · rename_i next
    obtain ⟨mark, _⟩ : start.current.kind = .punctuation .colon ∧ _ := by simpa using next
    exact (FirmAt.advance_bind (by simp [mark])
      ((ident_firm _).loose.bind fun _ => .pure _)).loose
  · exact Loose.pure _ _

theorem name_firm (message : String) : Firm 1 (name message) := by
  refine (ident_firm message).bind fun first => nextSegment_loose.many.bind fun rest => ?_
  split <;> exact .pure _

variable {item : Parser α}

theorem nextItem_loose (loose : Loose 0 item) : Loose 0 (nextItem item) := by
  refine (accept_loose (by simp)).bind fun comma => ?_
  cases comma with
  | false => exact .pure _
  | true =>
    exact skipLineBreaks_loose.bind fun _ => loose.bind fun _ =>
      skipLineBreaks_loose.bind fun _ => .pure _

theorem listUntil_loose (loose : Loose 0 item) (closing : Punctuation) (message : String) :
    Loose 0 (listUntil item closing message) := by
  have items : Loose 0 (itemsBefore item closing) := by
    refine skipLineBreaks_loose.bind fun _ start => TalliedAt.here_bind ?_
    split
    · exact Loose.pure _ _
    · exact loose.bind (fun _ => skipLineBreaks_loose.bind fun _ =>
        (nextItem_loose loose).many.bind fun _ => .pure _) start
  exact items.bind fun _ => (expect_firm (by simp) message).loose.bind fun _ => .pure _

/-! Where the limit on nesting is met. -/

theorem skipSubtree_some (stops : TokenKind → Bool) (start : Cursor) :
    (skipSubtree stops start).value.isSome := by
  have found := @Skip.subtreeLength?_eq stops 0 start.ahead
  simp only [skipSubtree, bind, andThen, here, found]
  cases Skip.lengthTo (Skip.endsSubtree stops) 0 start.ahead <;> rfl

theorem tooDeep_firm (limit : Nat) (stops : TokenKind → Bool) (placeholder : Span → α) :
    Firm 0 (tooDeep limit stops placeholder) := by
  intro start
  have skips (stop : Cursor) : TalliedAt stop
      (fun span? used told => told = 0 ∧ (span?.isSome → used ≠ 0)) (fun _ told => told = 0)
      (skipSubtree stops) := by
    refine TalliedAt.of_sound (skipSubtree_at stops stop) (skipSubtree_some stops stop) ?_
    rintro used span? _ ⟨rfl, _, holds⟩
    refine ⟨List.forall_mem_nil _, rfl, fun some => ?_⟩
    cases span? with
    | none => cases some
    | some span => exact fun none => holds.1 (List.length_eq_zero_iff.1 none)
  apply TalliedAt.current_bind
  have reported : TalliedAt start (fun _ used told => used = 0 ∧ told = 1) Settled
      (report (Report.tooDeep limit start.current.span)) :=
    TalliedAt.report (.inr rfl) ⟨rfl, rfl⟩
  refine TalliedAt.bind reported ?_ fun _ _ => id
  rintro _ used _ stop _ ⟨none, rfl⟩
  refine TalliedAt.bind (skips stop) ?_ fun more later lost => ?_
  · rintro span? more _ _ _ ⟨rfl, moved⟩
    cases span? with
    | none =>
      refine fun _ => ⟨List.forall_mem_nil _, [], .refl _, ?_⟩
      show 1 + 0 ≤ max _ 1
      omega
    | some span =>
      have moved := moved rfl
      exact TalliedAt.pure (by omega)
  · rw [Settled]
    omega

end Parser

end MoSyntax
