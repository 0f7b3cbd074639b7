import MoSyntax.Parser.TypeExpr
import MoSyntax.Proofs.Printing.Gives

/-!
Reading again the phrases that all constructs share, and types. A name must not be followed by a
colon, and that is all that a type asks of what follows it.
-/
namespace MoSyntax.Parser.Gives

variable {α β : Type} {rest after : List TokenKind}

theorem skipLineBreaks (breaks : List TokenKind) (all : ∀ kind ∈ breaks, kind = .lineBreak)
    (other : upcoming rest ≠ .lineBreak) :
    Gives (breaks ++ rest) (fun _ => True) rest Parser.skipLineBreaks := by
  apply here_bind
  intro cursor holds
  have stops : rest.takeWhile (· == .lineBreak) = [] := by
    cases rest with
    | nil => rfl
    | cons kind rest => exact List.takeWhile_cons_of_neg (by simpa using other)
  have count : lineBreaksAhead cursor.ahead = breaks.length := by
    rw [lineBreaksAhead, holds.takeWhile (· == .lineBreak),
      List.takeWhile_append_of_pos (by simpa using all), stops, List.append_nil]
  rw [count]
  exact skip breaks rest

theorem skipLineBreaks_bind {whole : β → Prop} {next : Unit → Parser β}
    (other : upcoming rest ≠ .lineBreak) (tail : Gives rest whole after (next ())) :
    Gives rest whole after (Parser.skipLineBreaks >>= next) :=
  bind (skipLineBreaks [] (by simp) other) fun _ _ => tail

theorem expect (kind : TokenKind) (message : String) :
    Gives (kind :: rest) (fun _ => True) rest (Parser.expect kind message) := by
  apply current_bind
  rintro found (rfl : found.kind = kind)
  rw [if_pos (beq_self_eq_true _)]
  exact advance_bind (pure trivial)

theorem accept (kind : TokenKind) : Gives (kind :: rest) (· = true) rest (Parser.accept kind) := by
  apply check_bind
  rw [upcoming_cons, if_pos (beq_self_eq_true _)]
  exact advance_bind (pure rfl)

theorem accept_of_ne {kind : TokenKind} (other : upcoming rest ≠ kind) :
    Gives rest (· = false) rest (Parser.accept kind) := by
  apply check_bind
  rw [if_neg (by simpa using other)]
  exact pure rfl

theorem ident (name : Ident) (message : String) :
    Gives (name.kinds ++ rest) (·.bare = name.bare) rest (Parser.ident message) := by
  apply current_bind
  rintro found (kind : found.kind = .identifier name.name)
  rw [kind]
  exact advance_bind (pure rfl)

theorem nextSegment (name : Ident) :
    Gives ([.punctuation .colon] ++ name.kinds ++ rest)
      (fun found => ∃ value, found = some value ∧ value.bare = name.bare) rest
      Parser.nextSegment := by
  apply here_bind
  intro cursor holds
  have colon : cursor.current.kind = .punctuation .colon := holds.current
  have word : (cursor.peek 1).kind = .identifier name.name := holds.peek 1
  rw [if_pos (by rw [colon, word]; rfl)]
  refine advance_bind (bind (ident name _) ?_)
  intro found same
  exact pure ⟨found, rfl, same⟩

theorem nextSegment_ends (other : upcoming rest ≠ .punctuation .colon) :
    Gives rest (· = none) rest Parser.nextSegment := by
  apply here_bind
  intro cursor holds
  have other : cursor.current.kind ≠ .punctuation .colon := holds.current ▸ other
  rw [if_neg (by simp [other])]
  exact pure rfl

theorem segments (names : List Ident) (other : upcoming rest ≠ .punctuation .colon) :
    Gives (names.flatMap ([.punctuation .colon] ++ ·.kinds) ++ rest)
      (fun found => found.map Ident.bare = names.map Ident.bare) rest
      (many Parser.nextSegment) :=
  (Rounds.of_flatMap ([.punctuation .colon] ++ Ident.kinds ·) _ _ (fun _ => True) names trivial (fun _ _ _ => trivial) (by simp)
    (fun name _ _ _ => nextSegment name) (nextSegment_ends other)).many

theorem name {name : Name} (formed : name.wellFormed) (message : String)
    (other : upcoming rest ≠ .punctuation .colon) :
    Gives (name.kinds ++ rest) (·.bare = name.bare) rest (Parser.name message) := by
  cases name with
  | ident name =>
    apply bind (ident name message)
    intro first same
    apply bind (segments [] other)
    intro found none
    obtain rfl := List.map_eq_nil_iff.1 none
    exact pure (congrArg Name.ident same)
  | path modules =>
    obtain ⟨_ | ⟨first, _ | ⟨second, more⟩⟩⟩ := modules
    · simp [Name.wellFormed, ModulePath.wellFormed] at formed
    · simp [Name.wellFormed, ModulePath.wellFormed] at formed
    rw [Name.kinds, ModulePath.kinds, List.map_cons, intercalate_cons, List.flatMap_map,
      List.append_assoc]
    apply bind (ident first message)
    intro head same
    apply bind (segments (second :: more) other)
    intro found others
    cases found with
    | nil => simp at others
    | cons next found => exact pure (by simp [Name.bare, ModulePath.bare, same, others])

section Lists

variable {ι : Type} {item : Parser α} {write : ι → List TokenKind} {view : α → β} {target : ι → β}
  {closing : Punctuation}

/-- What stands behind an item of a list. -/
def EndsItem (closing : Punctuation) (kinds : List TokenKind) : Prop :=
  upcoming kinds = .punctuation .comma ∨ upcoming kinds = .punctuation closing

theorem EndsItem.ne_lineBreak (ends : EndsItem closing rest) :
    upcoming rest ≠ .lineBreak := by
  rcases ends with same | same <;> simp [same]

theorem nextItem {one : ι} (begins : Begins TokenKind.startsExpr (write one))
    (ends : EndsItem closing rest)
    (gives : Gives (write one ++ rest) (view · = target one) rest item) :
    Gives ([.punctuation .comma] ++ write one ++ rest)
      (fun found => ∃ value, found = some value ∧ view value = target one) rest
      (Parser.nextItem item) := by
  apply bind (accept _)
  rintro _ rfl
  have visible : upcoming (write one ++ rest) ≠ .lineBreak :=
    ne_of_class (begins.append rest).head _ rfl
  refine skipLineBreaks_bind visible (bind gives ?_)
  intro value same
  exact skipLineBreaks_bind ends.ne_lineBreak (pure ⟨value, rfl, same⟩)

theorem nextItem_ends (last : closing ≠ .comma) :
    Gives (.punctuation closing :: rest) (· = none) (.punctuation closing :: rest)
      (Parser.nextItem item) := by
  apply bind (accept_of_ne (by simpa using last))
  rintro _ rfl
  exact pure rfl

theorem listUntil (write : ι → List TokenKind) (view : α → β) (target : ι → β) (items : List ι) (last : closing ≠ .comma) (message : String)
    (bracket : (TokenKind.punctuation closing).startsExpr = false)
    (begins : ∀ one ∈ items, Begins TokenKind.startsExpr (write one))
    (gives : ∀ one ∈ items, ∀ behind, EndsItem closing behind →
      Gives (write one ++ behind) (view · = target one) behind item) :
    Gives (listed (items.map write) ++ .punctuation closing :: rest)
      (fun found => found.1.map view = items.map target) rest
      (Parser.listUntil item closing message) := by
  have close : ∀ values : List α, values.map view = items.map target →
      Gives (.punctuation closing :: rest) (fun found => found.1.map view = items.map target) rest
        (Parser.expect (.punctuation closing) message >>= fun span => Pure.pure (values, span)) :=
    fun values same => bind (expect _ message) fun _ _ => pure same
  refine bind ?_ close
  cases items with
  | nil =>
    refine skipLineBreaks_bind (by simp [listed]) (check_bind ?_)
    rw [if_pos (by simp [listed])]
    exact pure rfl
  | cons first others =>
    obtain ⟨opens, begins⟩ := List.forall_mem_cons.1 begins
    obtain ⟨head, gives⟩ := List.forall_mem_cons.1 gives
    rw [listed, List.map_cons, intercalate_cons, List.append_assoc, List.flatMap_map]
    have follows : EndsItem closing
        (others.flatMap ([.punctuation .comma] ++ write ·) ++ .punctuation closing :: rest) := by
      cases others with
      | nil => exact .inr rfl
      | cons second others => exact .inl rfl
    have begun (more : List TokenKind) := (opens.append more).head
    refine skipLineBreaks_bind (ne_of_class (begun _) _ rfl) (check_bind ?_)
    rw [if_neg (by rw [beq_iff_eq]; exact ne_of_class (begun _) _ bracket)]
    apply bind (head _ follows)
    intro value same
    have rounds := Rounds.of_flatMap ([.punctuation .comma] ++ write ·) view target
      (EndsItem closing) others (.inr rfl : EndsItem closing (.punctuation closing :: rest))
      (fun _ _ _ => .inl rfl) (by simp)
      (fun one member behind ends => nextItem (begins one member) ends (gives one member behind ends))
      (nextItem_ends last)
    refine skipLineBreaks_bind follows.ne_lineBreak (bind rounds.many ?_)
    intro values more
    exact pure (by rw [List.map_cons, List.map_cons, same, more])

end Lists

theorem arrayLength {length : Option (Located NumberLiteral)}
    (whole : length.all fun length => length.value.countsItems)
    (other : ∀ literal, upcoming rest ≠ .number literal) :
    Gives ((length.map fun length => .number length.value).toList ++ rest)
      (fun found => found.map Located.bare = length.map Located.bare) rest Parser.arrayLength := by
  cases length with
  | none =>
    apply current_bind
    intro found kind
    split
    · rename_i literal number
      exact absurd (kind.symm.trans number) (other literal)
    · exact pure rfl
  | some length =>
    apply current_bind
    rintro found (kind : found.kind = .number length.value)
    rw [kind]
    dsimp only
    have whole : (length.value.radix == .decimal && !length.value.fractional) = true := whole
    rw [if_pos whole]
    exact advance_bind (pure rfl)

theorem typeLevel {type : Parser TypeExpr} {tree : TypeExpr} (formed : tree.wellFormed)
    (inner : ∀ part : TypeExpr, part.nesting < tree.nesting → part.wellFormed →
      Gives (part.kinds ++ rest) (·.bare = part.bare) rest type)
    (other : upcoming rest ≠ .punctuation .colon) :
    Gives (tree.kinds ++ rest) (·.bare = tree.bare) rest (Parser.typeLevel type) := by
  cases tree with
  | named named =>
    apply current_bind
    intro found kind
    obtain ⟨word, more, same⟩ := Name.kinds_eq_cons formed
    have kind : found.kind = .identifier word := by rw [kind, TypeExpr.kinds, same]; rfl
    rw [kind]
    apply bind (name formed _ other)
    intro value same
    exact pure (congrArg TypeExpr.named same)
  | pointer span target =>
    apply current_bind
    rintro found (kind : found.kind = .operator .star)
    rw [kind]
    refine current_bind fun star _ => advance_bind (bind (inner target (by simp [TypeExpr.nesting]) formed) ?_)
    intro value same
    exact pure (by simp [TypeExpr.bare, same])
  | array span length element =>
    rw [TypeExpr.wellFormed, Bool.and_eq_true] at formed
    rw [TypeExpr.kinds, List.cons_append, List.append_assoc]
    apply current_bind
    rintro found (kind : found.kind = .punctuation .leftBracket)
    rw [kind]
    apply bind (expect _ _)
    intro opening _
    apply bind (arrayLength formed.1 (by simp))
    intro count same
    apply bind (expect _ _)
    intro closing _
    apply bind (inner element (by simp [TypeExpr.nesting]) formed.2)
    intro value alike
    exact pure (by simp [TypeExpr.bare, same, alike])
  | skipped span => simp [TypeExpr.wellFormed] at formed

theorem typeExpr (limit : Nat) {budget : Nat} {tree : TypeExpr} (formed : tree.wellFormed)
    (within : tree.nesting ≤ budget) (other : upcoming rest ≠ .punctuation .colon) :
    Gives (tree.kinds ++ rest) (·.bare = tree.bare) rest (Parser.typeExpr limit budget) := by
  induction budget generalizing tree with
  | zero =>
    exfalso
    cases tree <;> simp [TypeExpr.nesting] at within
  | succ budget ih =>
    exact inside _ (typeLevel formed (fun part less formed => ih formed (by omega)) other)

end MoSyntax.Parser.Gives
