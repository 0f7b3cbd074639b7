import MoSyntax.Parser.Decl
import MoSyntax.Proofs.Printing.Stmt

/-! Reading again the declarations that were printed, and a whole file of them. -/
namespace MoSyntax.Parser.Gives

variable {type : Parser TypeExpr} {stmt : Parser Stmt} {bound : Nat} {rest : List TokenKind}

/-- What stands behind a declaration: the next line, or the end of the file. -/
def EndsDecl (rest : List TokenKind) : Prop :=
  upcoming rest = .endOfFile ∨ upcoming rest = .lineBreak

theorem localName (ends : EndsDecl rest) (alternative : Option (Located Text)) :
    Gives ((alternative.map fun name => .string name.value).toList ++ rest)
      (·.map Located.bare = alternative.map Located.bare) rest Parser.localName := by
  cases alternative with
  | none =>
    apply current_bind
    intro found (kind : found.kind = upcoming rest)
    split
    · rename_i value string
      rcases ends with same | same <;> simp [kind, same] at string
    · exact pure rfl
  | some name =>
    apply current_bind
    rintro found (kind : found.kind = .string name.value)
    rw [kind]
    exact advance_bind (pure rfl)

theorem useDeclaration {path : ModulePath} (formed : path.wellFormed) (ends : EndsDecl rest)
    (span : Span) (alternative : Option (Located Text)) :
    Gives ((Decl.importing span path alternative).kinds [.lineBreak] ++ rest)
      (·.bare = (Decl.importing span path alternative).bare) rest Parser.useDeclaration := by
  rw [Decl.kinds, List.cons_append, List.append_assoc]
  have other : upcoming ((alternative.map fun name => .string name.value).toList ++ rest) ≠
      .punctuation .colon := by
    cases alternative with
    | none => rcases ends with same | same <;> simp [same]
    | some name => simp
  have formed : (Name.path path).wellFormed := formed
  apply bind (expect _ _)
  intro opening _
  apply bind (name formed _ other)
  rintro (first | found) same
  · exact Name.noConfusion same
  · apply bind (localName ends alternative)
    intro called alike
    exact pure (by rw [Decl.bare, Decl.bare, Name.path.inj same, alike])

theorem typedName (types : ReadsTypes bound type) {typed : TypedName}
    (formed : typed.type.wellFormed) (within : typed.type.nesting ≤ bound) (message : String)
    (other : upcoming rest ≠ .punctuation .colon) :
    Gives (typed.kinds ++ rest) (·.bare = typed.bare) rest (Parser.typedName message type) := by
  rw [TypedName.kinds, List.append_assoc]
  apply bind (ident typed.name message)
  intro declared same
  apply bind (types typed.type formed within rest other)
  intro found alike
  exact pure (by rw [TypedName.bare, TypedName.bare, same, alike])

theorem skipFieldSeparators (breaks : List TokenKind) (all : ∀ kind ∈ breaks, kind = .lineBreak)
    (other : isFieldSeparator (upcoming rest) = false) :
    Gives (breaks ++ rest) (fun _ => True) rest Parser.skipFieldSeparators := by
  apply here_bind
  intro cursor holds
  have stops : rest.takeWhile isFieldSeparator = [] := by
    cases rest with
    | nil => rfl
    | cons kind rest => exact List.takeWhile_cons_of_neg (by rw [← upcoming_cons kind rest, other]; simp)
  have passes : ∀ kind ∈ breaks, isFieldSeparator kind := by
    intro kind member
    rw [all kind member]
    rfl
  rw [holds.takeWhile isFieldSeparator, List.takeWhile_append_of_pos passes, stops, List.append_nil]
  exact skip breaks rest

theorem endField (ends : EndsLine rest) : Gives rest (fun _ => True) rest Parser.endField := by
  apply current_bind
  intro found kind
  have ended : (isFieldSeparator found.kind || found.kind == .punctuation .rightBrace) = true := by
    rw [kind]
    rcases ends.upcoming_cases with same | same <;> simp [same, isFieldSeparator]
  rw [if_pos ended]
  exact pure trivial

theorem nextField (types : ReadsTypes bound type) {field : TypedName}
    (formed : field.type.wellFormed) (within : field.type.nesting ≤ bound) (ends : EndsLine rest) :
    Gives ((.lineBreak :: field.kinds) ++ rest) (fun found => ∃ value, found = some value ∧
      value.map TypedName.bare = some field.bare) rest (Parser.nextField type) := by
  apply bind (skipFieldSeparators [.lineBreak] (by simp) rfl)
  intro _ _
  apply here_bind
  intro cursor (holds : cursor.Holds (field.kinds ++ rest))
  have here : cursor.current.kind = .identifier field.name.name := holds.current
  have more : cursor.atEnd = false := holds.atEnd
  rw [if_neg (by simp [here, more, TokenKind.startsDeclaration])]
  apply bind (recover _ (typedName types formed within _ ends.ne_colon))
  rintro _ ⟨value, rfl, same⟩
  exact bind (endField ends) fun _ _ => pure ⟨_, rfl, congrArg some same⟩

theorem nextField_ends (breaks : List TokenKind) (all : ∀ kind ∈ breaks, kind = .lineBreak) :
    Gives (breaks ++ .punctuation .rightBrace :: rest) (· = none)
      (.punctuation .rightBrace :: rest) (Parser.nextField type) := by
  apply bind (skipFieldSeparators breaks all rfl)
  intro _ _
  apply here_bind
  intro cursor holds
  have here : cursor.current.kind = .punctuation .rightBrace := holds.current
  rw [if_pos (by simp [here])]
  exact pure rfl

theorem structDeclaration (types : ReadsTypes bound type) {fields : List TypedName}
    (formed : fields.all fun field => field.type.wellFormed)
    (within : deepest (fields.map fun field => field.type.nesting) ≤ bound) (span : Span)
    (name : Ident) :
    Gives ((Decl.record span name fields).kinds [.lineBreak] ++ rest)
      (·.bare = (Decl.record span name fields).bare) rest (Parser.structDeclaration type) := by
  rw [List.all_eq_true] at formed
  rw [deepest_le] at within
  rw [Decl.kinds, List.cons_append, List.append_assoc]
  apply bind (expect _ _)
  intro opening _
  apply bind (ident name _)
  intro declared same
  refine skipLineBreaks_bind (by simp [braced]) (bind (expect _ _) fun _ _ => ?_)
  refine bind (lines _ (Option.map TypedName.bare) (fun field => some field.bare) fields
    (fun field _ => ⟨_, _, rfl, rfl⟩)
    (fun field member behind ends => nextField types (formed field member)
      (within _ (List.mem_map_of_mem member)) ends)
    nextField_ends) ?_
  intro found alike
  apply bind (expect _ _)
  intro closing _
  apply pure
  rw [Decl.bare, Decl.bare, same,
    map_reduceOption (fields.map TypedName.bare) (by rw [alike, List.map_map]; rfl)]

theorem parameters (types : ReadsTypes bound type) {items : List TypedName}
    (formed : items.all fun item => item.type.wellFormed)
    (within : deepest (items.map fun item => item.type.nesting) ≤ bound) :
    Gives (.punctuation .leftParen :: (listed (items.map TypedName.kinds) ++
        .punctuation .rightParen :: rest))
      (·.map TypedName.bare = items.map TypedName.bare) rest (Parser.parameters type) := by
  rw [List.all_eq_true] at formed
  rw [deepest_le] at within
  have shallow : ∀ item ∈ items, item.type.nesting ≤ bound :=
    fun item member => within _ (List.mem_map_of_mem member)
  apply bind (expect _ _)
  intro opening _
  refine bind (listUntil _ TypedName.bare TypedName.bare items (by simp) _ rfl (fun item _ => ⟨_, _, rfl, rfl⟩)
    (fun item member behind ends => typedName types (formed item member) (shallow item member) _
      (ne_of_class (mayFollow_of_endsItem rfl ends) _ rfl))) ?_
  rintro ⟨found, closing⟩ same
  exact pure same

theorem resultType (types : ReadsTypes bound type) {result : Option TypeExpr}
    (formed : result.all TypeExpr.wellFormed) (within : (result.map TypeExpr.nesting).getD 0 ≤ bound)
    {behind : List TokenKind} (opens : rest = .punctuation .leftBrace :: behind) :
    Gives ((result.map TypeExpr.kinds).getD [] ++ rest)
      (·.map TypeExpr.bare = result.map TypeExpr.bare) rest (Parser.resultType type) := by
  subst opens
  apply current_bind
  intro found kind
  cases result with
  | none =>
    have kind : found.kind = .punctuation .leftBrace := kind
    rw [if_pos (by simp [kind])]
    exact pure rfl
  | some tree =>
    obtain ⟨first, more, same, starts⟩ := TypeExpr.begins formed
    have kind : found.kind = first := by simpa [same] using kind
    have goesOn : ¬ (found.kind == .punctuation .leftBrace || found.kind == .lineBreak) := by
      rw [kind]
      have brace := ne_of_class starts (.punctuation .leftBrace) rfl
      have visible := ne_of_class starts .lineBreak rfl
      simp [brace, visible]
    rw [if_neg goesOn]
    apply bind (types tree formed within _ (by simp))
    intro value alike
    exact pure (congrArg some alike)

theorem fnDeclaration (types : ReadsTypes bound type) (stmts : ReadsStmts bound stmt)
    {items : List TypedName} {result : Option TypeExpr} {body : Block}
    (formed : items.all fun item => item.type.wellFormed) (typed : result.all TypeExpr.wellFormed)
    (whole : body.wellFormed) (within : deepest (items.map fun item => item.type.nesting) ≤ bound)
    (shallow : (result.map TypeExpr.nesting).getD 0 ≤ bound) (inner : body.nesting ≤ bound)
    (span : Span) (name : Ident) :
    Gives ((Decl.function span name items result body).kinds [.lineBreak] ++ rest)
      (·.bare = (Decl.function span name items result body).bare) rest
      (Parser.fnDeclaration type stmt) := by
  obtain ⟨more, opens⟩ := body.begins [.lineBreak]
  have written : (Decl.function span name items result body).kinds [.lineBreak] ++ rest =
      .keyword .fnWord :: (name.kinds ++ .punctuation .leftParen ::
        (listed (items.map TypedName.kinds) ++ .punctuation .rightParen ::
          ((result.map TypeExpr.kinds).getD [] ++ (body.kinds [.lineBreak] ++ rest)))) := by
    simp [Decl.kinds]
  rw [written]
  apply bind (expect _ _)
  intro opening _
  apply bind (ident name _)
  intro declared same
  apply bind (parameters types formed within)
  intro found alike
  apply bind (resultType types typed shallow (by rw [opens]; rfl))
  intro value equal
  refine skipLineBreaks_bind (by simp [opens]) (bind (block stmts whole inner) ?_)
  intro read identical
  exact pure (by rw [Decl.bare, Decl.bare, same, alike, equal, identical])

theorem topLevel (types : ReadsTypes bound type) (stmts : ReadsStmts bound stmt) {tree : Decl}
    (formed : tree.wellFormed) (within : tree.nesting ≤ bound) (ends : EndsDecl rest) :
    Gives (tree.kinds [.lineBreak] ++ rest) (·.bare = tree.bare) rest
      (Parser.topLevel type stmt) := by
  apply current_bind
  intro found kind
  cases tree with
  | importing span path alternative =>
    have kind : found.kind = .keyword .useWord := kind
    rw [kind]
    exact useDeclaration formed ends span alternative
  | record span name fields =>
    have kind : found.kind = .keyword .structWord := kind
    rw [kind]
    exact structDeclaration types formed within span name
  | function span name items result body =>
    have kind : found.kind = .keyword .fnWord := kind
    simp only [Decl.wellFormed, Bool.and_eq_true] at formed
    obtain ⟨⟨first, second⟩, third⟩ := formed
    rw [Decl.nesting] at within
    rw [kind]
    exact fnDeclaration types stmts first second third (by omega) (by omega) (by omega) span name

theorem nextDeclaration {decl : Parser Decl} {tree : Decl}
    (gives : Gives (tree.kinds [.lineBreak] ++ rest) (·.bare = tree.bare) rest decl)
    (breaks : List TokenKind) (all : ∀ kind ∈ breaks, kind = .lineBreak) :
    Gives (breaks ++ (tree.kinds [.lineBreak] ++ rest)) (fun found => ∃ value, found = some value ∧
      value.map Decl.bare = some tree.bare) rest (Parser.nextDeclaration decl) := by
  have begins : ∃ word more, tree.kinds [.lineBreak] = .keyword word :: more := by
    cases tree <;> exact ⟨_, _, rfl⟩
  obtain ⟨word, more, same⟩ := begins
  apply bind (skipLineBreaks breaks all (by simp [same]))
  intro _ _
  apply here_bind
  intro cursor holds
  have goesOn : cursor.atEnd = false := by
    rw [holds.atEnd, same]
    rfl
  rw [if_neg (by simp [goesOn])]
  apply bind (recover _ gives)
  rintro _ ⟨value, rfl, alike⟩
  exact pure ⟨_, rfl, congrArg some alike⟩

theorem nextDeclaration_ends {decl : Parser Decl} :
    Gives [] (· = none) [] (Parser.nextDeclaration decl) := by
  apply bind (skipLineBreaks [] (by simp) (by simp [upcoming]))
  intro _ _
  apply here_bind
  intro cursor holds
  have ended : cursor.atEnd = true := holds.atEnd
  rw [if_pos ended]
  exact pure rfl

theorem declarations {limit : Nat} {trees : List Decl} (formed : ∀ tree ∈ trees, tree.wellFormed)
    (within : ∀ tree ∈ trees, tree.nesting ≤ limit) :
    Gives (([.lineBreak] : List TokenKind).intercalate (trees.map (Decl.kinds [.lineBreak])))
      (·.map Decl.bare = trees.map Decl.bare) [] (Parser.declarations limit) := by
  have gives : ∀ tree ∈ trees, ∀ rest, EndsDecl rest →
      Gives (tree.kinds [.lineBreak] ++ rest) (·.bare = tree.bare) rest
        (Parser.topLevel (Parser.typeExpr limit limit) (Parser.statement limit limit)) :=
    fun tree member rest ends => topLevel (typeExpr_reads limit limit)
      (statement_reads limit limit (Nat.le_refl _)) (formed tree member) (within tree member) ends
  have rounds : Rounds (Parser.nextDeclaration
        (Parser.topLevel (Parser.typeExpr limit limit) (Parser.statement limit limit)))
      (Option.map Decl.bare) []
      (([.lineBreak] : List TokenKind).intercalate (trees.map (Decl.kinds [.lineBreak])))
      (trees.map fun tree => some tree.bare) := by
    cases trees with
    | nil => exact .done nextDeclaration_ends
    | cons first others =>
      obtain ⟨head, gives⟩ := List.forall_mem_cons.1 gives
      have tail := Rounds.of_flatMap (fun tree => [.lineBreak] ++ tree.kinds [.lineBreak])
        (Option.map Decl.bare) (fun tree => some tree.bare) EndsDecl others (.inl rfl)
        (fun _ _ _ => .inr rfl) (by simp)
        (fun tree member behind ends => by
          rw [List.append_assoc]
          exact nextDeclaration (gives tree member behind ends) [.lineBreak] (by simp))
        nextDeclaration_ends
      rw [List.append_nil] at tail
      have ends : EndsDecl (others.flatMap fun tree => [.lineBreak] ++ tree.kinds [.lineBreak]) := by
        cases others with
        | nil => exact .inl rfl
        | cons second others => exact .inr rfl
      rw [List.map_cons, intercalate_cons, List.flatMap_map]
      refine .more ?_ (nextDeclaration (head _ ends) [] (by simp)) tail
      have some : first.kinds [.lineBreak] ≠ [] := by cases first <;> simp [Decl.kinds]
      have passed := List.length_pos_iff.2 some
      rw [List.length_append]
      omega
  apply bind rounds.many
  intro found same
  exact pure (map_reduceOption _ (by rw [same, List.map_map]; rfl))

end MoSyntax.Parser.Gives
