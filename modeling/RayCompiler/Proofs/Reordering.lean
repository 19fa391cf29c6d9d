import RayCompiler.Proofs.Grammar.Relocation
import RayCompiler.Proofs.Listing.Theorems

namespace RayCompiler

-- A top-level statement with the tokens it is read from.
structure Item where
  tokens : List (Located Token)
  statement : Statement

-- The bytes that the strings of an item take up.
def Item.storedSize (item : Item) : Nat := RayCompiler.storedSize (stringsOf item.tokens)

-- The bytes of a string and the zero behind them lie in the data at an offset.
def StoredAt (data : List UInt8) (offset : Nat) (contents : String) : Prop :=
  storedBytes contents <+: data.drop offset

-- The strings that the operands of a statement stand for, in the order of the text.
def Statement.PointsTo (statement : Statement) (data : List UInt8) (strings : List String) : Prop :=
  List.Forall₂ (StoredAt data) (statement.allOperands.filterMap Operand.offset?) strings

theorem forall₂_storedAt {data front : List UInt8} {strings : List String}
    (hsize : data.length < UInt32.size) (h : front ++ strings.flatMap storedBytes <+: data) :
    List.Forall₂ (StoredAt data) ((offsetsFrom front.length strings).map (· % UInt32.size))
      strings := by
  induction strings generalizing front with
  | nil => exact .nil
  | cons contents more ih =>
      rw [List.flatMap_cons, ← List.append_assoc] at h
      have hmore := ih h
      rw [List.length_append, length_storedBytes] at hmore
      refine .cons ?_ hmore
      obtain ⟨behind, rfl⟩ := h
      have hfront : front.length % UInt32.size = front.length := by
        refine Nat.mod_eq_of_lt (Nat.lt_of_le_of_lt ?_ hsize)
        rw [List.append_assoc, List.append_assoc, List.length_append]
        exact Nat.le_add_right _ _
      dsimp only
      rw [hfront, StoredAt, List.append_assoc, List.append_assoc, List.drop_left]
      exact List.prefix_append _ _

namespace Statement

theorem functionsIn_eq (body : List Statement) : functionsIn body = body.flatMap functions := by
  induction body with
  | nil => rfl
  | cons statement more ih => rw [functionsIn, ih, List.flatMap_cons]

theorem declarationsIn_eq (body : List Statement) :
    declarationsIn body = body.flatMap declarations := by
  induction body with
  | nil => rfl
  | cons statement more ih => rw [declarationsIn, ih, List.flatMap_cons]

theorem shapes_eq (body : List Statement) : shapes body = body.map shape := by
  induction body with
  | nil => rfl
  | cons statement more ih => rw [shapes, ih, List.map_cons]

end Statement

namespace Program

-- Programs whose statements have the same shapes introduce the same names.
theorem introduced_eq_of_shapes {program other : Program}
    (h : other.statements.map Statement.shape = program.statements.map Statement.shape) :
    other.introduced = program.introduced := by
  obtain ⟨hfunctions, hexterns⟩ := Statement.introduces_shapes program.statements
  obtain ⟨hfunctions', hexterns'⟩ := Statement.introduces_shapes other.statements
  rw [← Statement.shapes_eq, ← Statement.shapes_eq] at h
  rw [h] at hfunctions' hexterns'
  exact congrArg₂ KnownNames.mk (hfunctions'.symm.trans hfunctions) (hexterns'.symm.trans hexterns)

theorem perm_introduced {program other : Program} (h : other.statements.Perm program.statements) :
    other.introduced.functions.Perm program.introduced.functions ∧
      other.introduced.externs.Perm program.introduced.externs := by
  simp only [introduced, functions, externs, Statement.functionsIn_eq, Statement.declarationsIn_eq]
  exact ⟨(h.flatMap_right _).map _, (h.flatMap_right _).flatMap_right _⟩

end Program

namespace Grammar

variable {known known' : KnownNames}

-- Top-level statements up to the end of input, with trivia before, between and behind them.
inductive ItemsAt (known : KnownNames) : Cursor → List Item → Cursor → Prop where
  | stop : ItemsAt known ⟨[⟨span, .endOfInput⟩], data⟩ [] ⟨[⟨span, .endOfInput⟩], data⟩
  | skip (trivia : Trivia token) (more : ItemsAt known ⟨rest, data⟩ items after) :
      ItemsAt known ⟨⟨span, token⟩ :: rest, data⟩ items after
  | item
      (one : StatementAt known .module .empty ⟨tokens ++ rest, data⟩ statement .empty ⟨rest, between⟩)
      (more : ItemsAt known ⟨rest, between⟩ items after) :
      ItemsAt known ⟨tokens ++ rest, data⟩ (⟨tokens, statement⟩ :: items) after

theorem ItemsAt.cons {here middle after : Cursor} {tokens : List (Located Token)}
    {statement : Statement} {items : List Item}
    (one : StatementAt known .module .empty here statement .empty middle)
    (hrest : here.rest = tokens ++ middle.rest) (more : ItemsAt known middle items after) :
    ItemsAt known here (⟨tokens, statement⟩ :: items) after := by
  obtain ⟨rest, data⟩ := here
  subst hrest
  exact .item one more

theorem ItemsAt.exists_cons {here middle after : Cursor} {statement : Statement} {items : List Item}
    (one : StatementAt known .module .empty here statement .empty middle)
    (more : ItemsAt known middle items after) :
    ∃ tokens, ItemsAt known here (⟨tokens, statement⟩ :: items) after := by
  obtain ⟨tokens, hrest, _⟩ := one.passes.1
  exact ⟨tokens, .cons one hrest more⟩

theorem StatementsAt.exists_items {place : Place} {slots later : SlotTable} {here after : Cursor}
    {body : List Statement} (h : StatementsAt known place slots here body later after)
    (hplace : place = .module) (hslots : slots = .empty)
    (hafter : ∃ span, after.rest = [⟨span, .endOfInput⟩]) :
    ∃ items, ItemsAt known here items after ∧ items.map (·.statement) = body := by
  induction h with
  | stop stop =>
      subst hplace
      cases stop
      obtain ⟨_, hrest⟩ := hafter
      cases hrest
      exact ⟨[], .stop, rfl⟩
  | skip skip _ ih =>
      obtain ⟨items, hitems, hbody⟩ := ih hplace hslots hafter
      subst hplace
      cases skip with
      | module trivia => exact ⟨items, .skip trivia hitems, hbody⟩
  | externs list ends _ ih =>
      obtain ⟨items, hitems, rfl⟩ := ih hplace hslots hafter
      obtain ⟨tokens, hitems⟩ := ItemsAt.exists_cons (.externs list ends) hitems
      exact ⟨_, hitems, rfl⟩
  | function list distinct owner opens statements _ _ ih =>
      obtain ⟨items, hitems, rfl⟩ := ih hplace hslots hafter
      obtain ⟨tokens, hitems⟩ := ItemsAt.exists_cons
        (.function (.function list distinct owner opens statements)) hitems
      exact ⟨_, hitems, rfl⟩
  | action owner =>
      subst hplace
      cases owner

theorem ItemsAt.statementsAt {here after : Cursor} {items : List Item}
    (h : ItemsAt known here items after) :
    StatementsAt known .module .empty here (items.map (·.statement)) .empty after := by
  induction h with
  | stop => exact .stop .module
  | skip trivia _ ih => exact .skip (.module trivia) ih
  | item one _ ih => exact statementsAt_iff.mpr (.inr (.inr ⟨_, _, _, _, rfl, one, ih⟩))

theorem ItemsAt.statementAt_of_mem {here after : Cursor} {items : List Item}
    (h : ItemsAt known here items after) {item : Item} (hm : item ∈ items) :
    ∃ data rest between, StatementAt known .module .empty ⟨item.tokens ++ rest, data⟩
      item.statement .empty ⟨rest, between⟩ := by
  induction h with
  | stop => simp at hm
  | skip _ _ ih => exact ih hm
  | item one _ ih =>
      rcases List.mem_cons.mp hm with rfl | hm
      · exact ⟨_, _, _, one⟩
      · exact ih hm

theorem StatementAt.interns {place : Place} {slots later : SlotTable} {here after : Cursor}
    {statement : Statement} (h : StatementAt known place slots here statement later after) :
    Interns here statement.allOperands after := by
  cases h with
  | externs list => exact list.interns_none.cons rfl
  | function inner =>
      cases inner with
      | function list _ _ opens statements =>
          exact (((list.interns_none.tail (opens.stringsOf_eq _)).trans
            statements.interns).cons rfl).cons rfl
  | action _ one => exact one.interns

-- The data grow by the strings of each item.
theorem ItemsAt.length_data {here after : Cursor} {items : List Item}
    (h : ItemsAt known here items after) :
    after.data.length = here.data.length + (items.map (·.storedSize)).sum := by
  induction h with
  | stop => rfl
  | skip _ _ ih => exact ih
  | item one _ ih =>
      obtain ⟨tokens, hrest, hdata, _⟩ := one.interns
      cases List.append_cancel_right hrest
      dsimp only at hdata ih ⊢
      rw [ih, hdata, List.length_append, length_flatMap_storedBytes, List.map_cons, List.sum_cons,
        Item.storedSize, Nat.add_assoc]

-- Each statement points to its own strings in the data of the whole program.
theorem ItemsAt.pointsTo {here after : Cursor} {items : List Item}
    (h : ItemsAt known here items after) (hsize : after.data.length < UInt32.size) :
    here.data <+: after.data ∧
      ∀ item ∈ items, item.statement.PointsTo after.data (stringsOf item.tokens) := by
  induction h with
  | stop => exact ⟨List.prefix_rfl, by simp⟩
  | skip _ _ ih => exact ih hsize
  | item one _ ih =>
      obtain ⟨hgrows, hmore⟩ := ih hsize
      obtain ⟨tokens, hrest, hdata, hoffsets⟩ := one.interns
      cases List.append_cancel_right hrest
      dsimp only at hdata hoffsets hgrows
      rw [hdata] at hgrows
      refine ⟨(List.prefix_append _ _).trans hgrows, ?_⟩
      intro item hm
      rcases List.mem_cons.mp hm with rfl | hm
      · rw [Statement.PointsTo, hoffsets]
        exact forall₂_storedAt hsize hgrows
      · exact hmore item hm

end Grammar

-- The tokens of items one after another, each with a line end behind it, and the end of input.
def lineUp (items : List Item) : List Token :=
  items.flatMap (fun item => item.tokens.map (·.value) ++ [.lineEnd]) ++ [.endOfInput]

-- The same item elsewhere: equal up to places in the text and offsets of strings.
structure Item.SameAs (item other : Item) : Prop where
  tokens : other.tokens.map (·.value) = item.tokens.map (·.value)
  statement : other.statement.shape = item.statement.shape

theorem map_shape_eq {items others : List Item} (h : List.Forall₂ Item.SameAs items others) :
    others.map (·.statement.shape) = items.map (·.statement.shape) := by
  induction h with
  | nil => rfl
  | cons hsame _ ih => rw [List.map_cons, List.map_cons, hsame.statement, ih]

theorem map_storedSize_eq {items others : List Item} (h : List.Forall₂ Item.SameAs items others) :
    others.map (·.storedSize) = items.map (·.storedSize) := by
  induction h with
  | nil => rfl
  | cons hsame _ ih =>
      rw [List.map_cons, List.map_cons, Item.storedSize, Item.storedSize,
        stringsOf_eq_of_values hsame.tokens, ih]

namespace Grammar

variable {known known' : KnownNames}

-- Items can be read in any order, as long as each of them can be read somewhere.
theorem exists_itemsAt_lineUp (hknown : SameNames known known') {moved : List Item}
    (h : ∀ item ∈ moved, ∃ data rest between, StatementAt known .module .empty
      ⟨item.tokens ++ rest, data⟩ item.statement .empty ⟨rest, between⟩)
    {again : List (Located Token)} (hagain : again.map (·.value) = lineUp moved)
    (data : List UInt8) :
    ∃ items span after, ItemsAt known' ⟨again, data⟩ items ⟨[⟨span, .endOfInput⟩], after⟩ ∧
      List.Forall₂ Item.SameAs moved items := by
  induction moved generalizing again data with
  | nil =>
      obtain ⟨⟨span, token⟩, rest, rfl, htoken, hrest⟩ := List.map_eq_cons_iff.mp hagain
      cases htoken
      cases List.map_eq_nil_iff.mp hrest
      exact ⟨[], span, data, .stop, .nil⟩
  | cons item moved ih =>
      have hsplit : lineUp (item :: moved) = item.tokens.map (·.value) ++ (.lineEnd :: lineUp moved) := by
        simp [lineUp]
      rw [hsplit] at hagain
      obtain ⟨tokens, behind, rfl, htokens, hbehind⟩ := List.map_eq_append_iff.mp hagain
      obtain ⟨⟨span, token⟩, others, rfl, htoken, hothers⟩ := List.map_eq_cons_iff.mp hbehind
      cases htoken
      obtain ⟨_, rest, _, one⟩ := h item (by simp)
      obtain ⟨statement, ⟨left, between⟩, one', hshape, hfollows⟩ :=
        one.relocate hknown ⟨span, others, rfl⟩ ⟨tokens ++ ⟨span, .lineEnd⟩ :: others, data⟩
          (Nat.le_refl _) (follows_append htokens)
      cases hfollows.eq_of_ends
      obtain ⟨items, last, after, hitems, hsame⟩ :=
        ih (fun other hm => h other (by simp [hm])) hothers between
      exact ⟨⟨tokens, statement⟩ :: items, last, after, .item one' (.skip .lineEnd hitems),
        .cons ⟨htokens, hshape⟩ hsame⟩

end Grammar

variable {tokens : List (Located Token)} {program : Program}

-- The tokens of a program, cut into those of its top-level statements and the trivia around them.
structure CutInto (tokens : List (Located Token)) (program : Program) (items : List Item) :
    Prop where
  derivation : ∃ span, Grammar.ItemsAt program.introduced ⟨tokens, []⟩ items
    ⟨[⟨span, .endOfInput⟩], program.data⟩
  statements : items.map (·.statement) = program.statements

theorem Forms.exists_cutInto (h : Forms tokens program) : ∃ items, CutInto tokens program items := by
  obtain ⟨span, derivation⟩ := h.derivation
  obtain ⟨items, hitems, hbody⟩ := derivation.exists_items rfl rfl ⟨span, rfl⟩
  exact ⟨items, ⟨span, hitems⟩, hbody⟩

theorem CutInto.endsOnce {items : List Item} (h : CutInto tokens program items) :
    EndsOnce tokens := by
  obtain ⟨span, hitems⟩ := h.derivation
  obtain ⟨used, hused, hends⟩ := hitems.statementsAt.reaches
  exact ⟨used, span, hused, hends⟩

theorem CutInto.forms {items : List Item} (h : CutInto tokens program items)
    (hdistinct : program.introduced.functions.Nodup)
    (hapart : ∀ name ∈ program.introduced.functions, name ∉ program.introduced.externs) :
    Forms tokens program := by
  obtain ⟨span, hitems⟩ := h.derivation
  have hstatements := hitems.statementsAt
  rw [h.statements] at hstatements
  exact ⟨⟨span, hstatements⟩, hdistinct, hapart⟩

-- A statement of one program and its like in another one. Each points to the same strings, in the
-- order of the text, in the data of its own program, if words of 32 bits can count the data.
structure Item.Corresponds (data data' : List UInt8) (item : Item) (statement : Statement) :
    Prop where
  shape : statement.shape = item.statement.shape
  strings : data.length < UInt32.size → item.statement.PointsTo data (stringsOf item.tokens)
  strings' : data.length < UInt32.size → statement.PointsTo data' (stringsOf item.tokens)

-- Both have a listing, or both lack it for the same reason.
inductive SameOutcome : Except AssembleError String → Except AssembleError String → Prop where
  | listing (text text' : String) : SameOutcome (.ok text) (.ok text')
  | duplicateExtern (name name' : String) (position position' : Position) :
      SameOutcome (.error (.duplicateExtern name position)) (.error (.duplicateExtern name' position'))
  | missingEntryPoint : SameOutcome (.error .missingEntryPoint) (.error .missingEntryPoint)

-- Which of the three outcomes a program has depends only on the names that it introduces.
theorem Forms.sameOutcome {tokens' : List (Located Token)} {other : Program}
    (h : Forms tokens program) (h' : Forms tokens' other)
    (hfunctions : other.introduced.functions.Perm program.introduced.functions)
    (hexterns : other.introduced.externs.Perm program.introduced.externs) :
    SameOutcome program.generate other.generate := by
  have hnodup : (other.declared.map (·.2)).Nodup ↔ (program.declared.map (·.2)).Nodup := by
    rw [Program.declared_names, Program.declared_names]
    exact hexterns.nodup_iff
  have hentry : (∃ function ∈ other.functions, function.name = Program.entryPoint) ↔
      ∃ function ∈ program.functions, function.name = Program.entryPoint := by
    rw [← List.mem_map, ← List.mem_map]
    exact hfunctions.mem_iff
  rcases h.generate_cases with ⟨position, name, hrepeats, hgenerate⟩ |
      ⟨hdistinct, ⟨hgenerate, hmissing⟩ | ⟨⟨text, hgenerate⟩, hfound⟩⟩ <;>
    rcases h'.generate_cases with ⟨position', name', hrepeats', hgenerate'⟩ |
      ⟨hdistinct', ⟨hgenerate', hmissing'⟩ | ⟨⟨text', hgenerate'⟩, hfound'⟩⟩ <;>
    rw [hgenerate, hgenerate']
  · exact .duplicateExtern name name' position position'
  · exact absurd (hnodup.mp hdistinct') hrepeats.not_nodup
  · exact absurd (hnodup.mp hdistinct') hrepeats.not_nodup
  · exact absurd (hnodup.mpr hdistinct) hrepeats'.not_nodup
  · exact .missingEntryPoint
  · obtain ⟨function, hm, hname⟩ := hentry.mp hfound'
    exact absurd hname (hmissing function hm)
  · exact absurd (hnodup.mpr hdistinct) hrepeats'.not_nodup
  · obtain ⟨function, hm, hname⟩ := hentry.mpr hfound
    exact absurd hname (hmissing' function hm)
  · exact .listing text text'

-- Items that were lined up in another order form a program, and it introduces the same names.
theorem CutInto.exists_forms {items moved : List Item} {again : List (Located Token)}
    (h : Forms tokens program) (hcut : CutInto tokens program items) (hperm : moved.Perm items)
    (hagain : again.map (·.value) = lineUp moved) :
    ∃ others other, EndsOnce again ∧ Forms again other ∧ CutInto again other others ∧
      List.Forall₂ Item.SameAs moved others ∧
      other.introduced.functions.Perm program.introduced.functions ∧
      other.introduced.externs.Perm program.introduced.externs := by
  obtain ⟨_, hitems⟩ := hcut.derivation
  let target : Program := ⟨moved.map (·.statement), []⟩
  have hstatements : target.statements.Perm program.statements := by
    rw [← hcut.statements]
    exact hperm.map _
  obtain ⟨hfunctions, hexterns⟩ := Program.perm_introduced hstatements
  have hnames : Grammar.SameNames program.introduced target.introduced :=
    ⟨fun _ => hfunctions.mem_iff, fun _ => hexterns.mem_iff⟩
  obtain ⟨others, span, data, hothers, hsame⟩ := Grammar.exists_itemsAt_lineUp hnames
    (fun item hm => hitems.statementAt_of_mem (hperm.mem_iff.mp hm)) hagain []
  let other : Program := ⟨others.map (·.statement), data⟩
  have hshapes : other.statements.map Statement.shape = target.statements.map Statement.shape := by
    simpa only [other, target, List.map_map, Function.comp_def] using map_shape_eq hsame
  have hknown : other.introduced = target.introduced := Program.introduced_eq_of_shapes hshapes
  rw [← hknown] at hothers hfunctions hexterns
  have hcut' : CutInto again other others := ⟨⟨span, hothers⟩, rfl⟩
  refine ⟨others, other, hcut'.endsOnce, hcut'.forms (hfunctions.nodup_iff.mpr h.distinct) ?_, hcut',
    hsame, hfunctions, hexterns⟩
  intro name hm hm'
  exact h.apart name (hfunctions.mem_iff.mp hm) (hexterns.mem_iff.mp hm')

-- The top-level statements of a program can stand in any order. Nothing of one of them but the places
-- of its tokens and of its strings depends on the statements before it.
theorem parse_lineUp (htokens : EndsOnce tokens) (h : parse tokens = .ok program) :
    (∃ items, CutInto tokens program items) ∧
    ∀ (items moved : List Item) (again : List (Located Token)), CutInto tokens program items →
      moved.Perm items → again.map (·.value) = lineUp moved →
      ∃ other, parse again = .ok other ∧
        List.Forall₂ (Item.Corresponds program.data other.data) moved other.statements ∧
        SameOutcome program.generate other.generate := by
  have hforms := forms_of_parse htokens h
  refine ⟨hforms.exists_cutInto, ?_⟩
  intro items moved again hcut hperm hagain
  obtain ⟨others, other, hends, hother, hcut', hsame, hfunctions, hexterns⟩ :=
    hcut.exists_forms hforms hperm hagain
  refine ⟨other, parse_of_forms hends hother, ?_, hforms.sameOutcome hother hfunctions hexterns⟩
  obtain ⟨_, hitems⟩ := hcut.derivation
  obtain ⟨_, hothers⟩ := hcut'.derivation
  rw [← hcut'.statements, List.forall₂_map_right_iff]
  refine List.forall₂_iff_zip.mpr ⟨hsame.length_eq, ?_⟩
  intro item item' hm
  have hpair := (List.forall₂_iff_zip.mp hsame).2 hm
  obtain ⟨hmoved, hothers'⟩ := List.of_mem_zip hm
  refine ⟨hpair.statement, fun hsize => (hitems.pointsTo hsize).2 item (hperm.mem_iff.mp hmoved),
    fun hsize => ?_⟩
  have hlength : other.data.length = program.data.length := by
    have hdata := hitems.length_data
    have hdata' := hothers.length_data
    dsimp only at hdata hdata'
    rw [hdata', hdata, map_storedSize_eq hsame, (hperm.map _).sum_nat]
  rw [← stringsOf_eq_of_values hpair.tokens]
  exact (hothers.pointsTo (hlength ▸ hsize)).2 item' hothers'

-- A function that calls another one behind it, each with a string, and the extern that both use:
-- func main() => f("b") (end of line) func f(x) { p("a", x) } extern p
def forwardTokens : List (Located Token) :=
  [.keyword .func, .name "main", .symbol .openParen, .symbol .closeParen, .symbol .arrow, .name "f",
    .symbol .openParen, .string "b", .symbol .closeParen, .lineEnd, .keyword .func, .name "f",
    .symbol .openParen, .name "x", .symbol .closeParen, .symbol .openCurly, .name "p",
    .symbol .openParen, .string "a", .symbol .comma, .name "x", .symbol .closeParen,
    .symbol .closeCurly, .keyword .external, .name "p", .endOfInput].map (⟨.point .start, ·⟩)

def forwardItems : List Item :=
  [⟨(forwardTokens.take 9), .function .start "main" []
      [.action .start "main" (.call ⟨"f", [.data 0]⟩)] ⟨[], [.result 0]⟩⟩,
    ⟨(forwardTokens.drop 10).take 13, .function .start "f" ["x"]
      [.action .start "f" (.call ⟨"p", [.data 2, .variable 0]⟩)] ⟨["x"], [.result 0]⟩⟩,
    ⟨(forwardTokens.drop 23).take 2, .externs .start ["p"]⟩]

def forwardProgram : Program := ⟨forwardItems.map (·.statement), [98, 0, 97, 0]⟩

theorem endsOnce_forwardTokens : EndsOnce forwardTokens :=
  ⟨forwardTokens.dropLast, .point .start, rfl, by decide⟩

theorem cutInto_forwardItems : CutInto forwardTokens forwardProgram forwardItems := by
  refine ⟨⟨.point .start, ?_⟩, rfl⟩
  have hmain : Grammar.StatementAt forwardProgram.introduced .module .empty ⟨forwardTokens, []⟩
      (.function .start "main" [] [.action .start "main" (.call ⟨"f", [.data 0]⟩)] ⟨[], [.result 0]⟩)
      .empty ⟨forwardTokens.drop 9, [98, 0]⟩ := by
    refine .function (.function .empty .nil rfl .arrow (.action rfl ?_ (.stop (.arrow .lineEnd))))
    exact .call (.call (by decide) (.list (.one .string)) ⟨_, rfl, .line .lineEnd⟩)
  have hf : Grammar.StatementAt forwardProgram.introduced .module .empty
      ⟨forwardTokens.drop 10, [98, 0]⟩
      (.function .start "f" ["x"] [.action .start "f" (.call ⟨"p", [.data 2, .variable 0]⟩)]
        ⟨["x"], [.result 0]⟩)
      .empty ⟨forwardTokens.drop 23, [98, 0, 97, 0]⟩ := by
    have hcall : Grammar.ActionAt forwardProgram.introduced ⟨["x"], []⟩
        ⟨forwardTokens.drop 16, [98, 0]⟩ (.call ⟨"p", [.data 2, .variable 0]⟩)
        ⟨["x"], [.result 0]⟩ ⟨forwardTokens.drop 22, [98, 0, 97, 0]⟩ :=
      .call (.call (by decide) (.list (.more .string (.one (.variable rfl)))) ⟨_, rfl, .closeCurly⟩)
    exact .function (.function (.list (.one .name)) (by decide) rfl .block
      (.action rfl hcall (.stop .block)))
  have hp : Grammar.StatementAt forwardProgram.introduced .module .empty
      ⟨forwardTokens.drop 23, [98, 0, 97, 0]⟩ (.externs .start ["p"]) .empty
      ⟨forwardTokens.drop 25, [98, 0, 97, 0]⟩ :=
    .externs (.one .name) ⟨_, rfl, .line .endOfInput⟩
  exact .cons hmain rfl (.skip .lineEnd (.cons hf rfl (.cons hp rfl .stop)))

-- The same items with the extern first and the entry point last. The strings change places too.
def backwardItems : List Item := forwardItems.reverse

def backwardTokens : List (Located Token) := (lineUp backwardItems).map (⟨.point .start, ·⟩)

theorem parse_backwardTokens : EndsOnce forwardTokens ∧ parse forwardTokens = .ok forwardProgram ∧
    CutInto forwardTokens forwardProgram forwardItems ∧ backwardItems.Perm forwardItems ∧
    ∃ other, parse backwardTokens = .ok other ∧ other.data = [97, 0, 98, 0] ∧
      List.Forall₂ (Item.Corresponds forwardProgram.data other.data) backwardItems other.statements ∧
      SameOutcome forwardProgram.generate other.generate := by
  have hparse : parse forwardTokens = .ok forwardProgram := rfl
  have hperm : backwardItems.Perm forwardItems := forwardItems.reverse_perm
  obtain ⟨other, hother, hmatch, houtcome⟩ := (parse_lineUp endsOnce_forwardTokens hparse).2
    forwardItems backwardItems backwardTokens cutInto_forwardItems hperm rfl
  have hdata : (parse backwardTokens).toOption.map (·.data) = some [97, 0, 98, 0] := rfl
  rw [hother] at hdata
  exact ⟨endsOnce_forwardTokens, hparse, cutInto_forwardItems, hperm, other, hother,
    Option.some.inj hdata, hmatch, houtcome⟩

-- A function that passes a string to itself: func name() => name("contents")
def loopItem (name contents : String) (offset : Nat) : Item where
  tokens := [.keyword .func, .name name, .symbol .openParen, .symbol .closeParen, .symbol .arrow,
    .name name, .symbol .openParen, .string contents, .symbol .closeParen].map (⟨.point .start, ·⟩)
  statement := .function .start name [] [.action .start name (.call ⟨name, [.data offset]⟩)]
    ⟨[], [.result 0]⟩

theorem statementAt_loopItem {known : KnownNames} {name : String} (contents : String)
    (hname : name ∈ known.functions) (rest : List (Located Token)) (data : List UInt8) :
    Grammar.StatementAt known .module .empty
      ⟨(loopItem name contents (Parse.dataOffset data)).tokens ++ ⟨.point .start, .lineEnd⟩ :: rest,
        data⟩
      (loopItem name contents (Parse.dataOffset data)).statement .empty
      ⟨⟨.point .start, .lineEnd⟩ :: rest, data ++ storedBytes contents⟩ := by
  rw [storedBytes, ← List.append_assoc]
  refine .function (.function .empty .nil rfl .arrow (.action rfl ?_ (.stop (.arrow .lineEnd))))
  exact .call (.call (.inl hname) (.list (.one .string)) ⟨_, rfl, .line .lineEnd⟩)

-- Two such functions, with what they are called and what they pass.
def loopItems (first second : String × String) : List Item :=
  [loopItem first.1 first.2 0, loopItem second.1 second.2 (Parse.dataOffset (storedBytes first.2))]

def loopProgram (first second : String × String) : Program :=
  ⟨(loopItems first second).map (·.statement), storedBytes first.2 ++ storedBytes second.2⟩

def loopTokens (first second : String × String) : List (Located Token) :=
  (lineUp (loopItems first second)).map (⟨.point .start, ·⟩)

theorem cutInto_loopItems (first second : String × String) :
    CutInto (loopTokens first second) (loopProgram first second) (loopItems first second) := by
  refine ⟨⟨.point .start, ?_⟩, rfl⟩
  have hname : second.1 ∈ (loopProgram first second).introduced.functions := .tail _ (.head _)
  have hsecond := Grammar.ItemsAt.item
    (statementAt_loopItem second.2 hname [⟨.point .start, .endOfInput⟩] (storedBytes first.2))
    (.skip .lineEnd .stop)
  exact .item (statementAt_loopItem first.2 (.head _) _ []) (.skip .lineEnd hsecond)

theorem parse_loopTokens {first second : String × String} (h : first.1 ≠ second.1) :
    parse (loopTokens first second) = .ok (loopProgram first second) := by
  have hcut := cutInto_loopItems first second
  have hdistinct : [first.1, second.1].Nodup := by simpa using h
  exact parse_of_forms hcut.endsOnce (hcut.forms hdistinct fun _ _ => List.not_mem_nil)

theorem lineUp_loopItems_reverse (first second : String × String) :
    (loopTokens second first).map (·.value) = lineUp (loopItems first second).reverse := rfl

-- An item and a statement that point to the same strings in their data.
def Item.SharesStrings (data data' : List UInt8) (item : Item) (statement : Statement) : Prop :=
  ∃ strings, item.statement.PointsTo data strings ∧ statement.PointsTo data' strings

-- Every string has a first byte, if only the zero behind it.
theorem eq_of_storedAt_cons {byte byte' : UInt8} {data data' : List UInt8} {contents : String}
    (h : StoredAt (byte :: data) 0 contents) (h' : StoredAt (byte' :: data') 0 contents) :
    byte = byte' := by
  rw [StoredAt, List.drop_zero] at h h'
  cases hbytes : storedBytes contents with
  | nil => simp [storedBytes] at hbytes
  | cons first more =>
      rw [hbytes] at h h'
      exact (List.cons_prefix_cons.mp h).1.symm.trans (List.cons_prefix_cons.mp h').1

theorem Item.SharesStrings.head_eq {name contents contents' : String} {byte byte' : UInt8}
    {data data' : List UInt8}
    (h : (loopItem name contents 0).SharesStrings (byte :: data) (byte' :: data')
      (loopItem name contents' 0).statement) : byte = byte' := by
  obtain ⟨strings, hfirst, hsecond⟩ := h
  cases hfirst with
  | cons hstored _ =>
      cases hsecond with
      | cons hstored' _ => exact eq_of_storedAt_cons hstored hstored'

def letters (count : Nat) : String := String.ofList (List.replicate count 'a')

theorem storedBytes_letters (count : Nat) :
    storedBytes (letters count) = List.replicate count 97 ++ [0] := by
  have hletter : String.utf8EncodeChar 'a' = [97] := by decide
  simp [letters, storedBytes, String.toUTF8, String.toByteArray_ofList, List.utf8Encode,
    List.flatMap_replicate, hletter]

theorem dataOffset_letters {count : Nat} (h : count + 1 = UInt32.size) :
    Parse.dataOffset (storedBytes (letters count)) = 0 := by
  rw [Parse.dataOffset, storedBytes_letters, List.length_append, List.length_replicate,
    List.length_singleton, h, Nat.mod_self]

def longLoop : String × String := ("main", letters 4294967295)

def shortLoop : String × String := ("f", "b")

theorem not_sharesStrings_shortLoop : ¬ (loopItem "f" "b" (Parse.dataOffset
    (storedBytes longLoop.2))).SharesStrings (loopProgram longLoop shortLoop).data
      (loopProgram shortLoop longLoop).data (loopItem "f" "b" 0).statement := by
  have hlong : storedBytes longLoop.2 = 97 :: (List.replicate 4294967294 97 ++ [0]) := by
    rw [longLoop, storedBytes_letters, List.replicate_succ, List.cons_append]
  have hshort : storedBytes shortLoop.2 = [98, 0] := by decide
  rw [longLoop, dataOffset_letters rfl, ← longLoop, loopProgram, loopProgram, hlong, hshort]
  exact fun h => absurd h.head_eq (by decide)

-- The long string fills all that words of 32 bits can count. The offset of the one behind it is zero
-- then, as if it came first, and it is the string that is in front that lies there.
theorem parted_longLoop : EndsOnce (loopTokens longLoop shortLoop) ∧
    parse (loopTokens longLoop shortLoop) = .ok (loopProgram longLoop shortLoop) ∧
    CutInto (loopTokens longLoop shortLoop) (loopProgram longLoop shortLoop)
      (loopItems longLoop shortLoop) ∧
    ∃ moved : List Item, moved.Perm (loopItems longLoop shortLoop) ∧
      (loopTokens shortLoop longLoop).map (·.value) = lineUp moved ∧
      parse (loopTokens shortLoop longLoop) = .ok (loopProgram shortLoop longLoop) ∧
      ¬ List.Forall₂ (Item.SharesStrings (loopProgram longLoop shortLoop).data
        (loopProgram shortLoop longLoop).data) moved
        (loopProgram shortLoop longLoop).statements := by
  have hcut := cutInto_loopItems longLoop shortLoop
  refine ⟨hcut.endsOnce, parse_loopTokens (by decide), hcut, _, List.reverse_perm _,
    lineUp_loopItems_reverse _ _, parse_loopTokens (by decide), ?_⟩
  intro h
  cases h with
  | cons hfirst _ => exact not_sharesStrings_shortLoop hfirst

end RayCompiler
