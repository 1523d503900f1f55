import TapeStepper.Proofs.Grammar
import TapeStepper.Proofs.Traces

namespace TapeStepper

namespace Block

def append : Block → Block → Block
  | done, second => second
  | act offset action next, second => act offset action (next.append second)
  | call offset next, second => call offset (next.append second)
  | loop opens body closes next, second => loop opens body closes (next.append second)
  | define opens body closes next, second => define opens body closes (next.append second)

/-- The operators that are not the first of a statement of the sequence itself. -/
def inside : Block → List Token
  | done => []
  | act _ _ next | call _ next => next.inside
  | loop _ body closes next => body.tokens ++ ⟨closes, .loopEnd⟩ :: next.inside
  | define _ body closes next => body.tokens ++ ⟨closes, .functionEnd⟩ :: next.inside

@[simp]
theorem tokens_append (first second : Block) :
    (first.append second).tokens = first.tokens ++ second.tokens := by
  induction first with
  | done => rfl
  | act _ _ _ ih | call _ _ ih => simp [append, ih]
  | loop _ _ _ _ _ ih | define _ _ _ _ _ ih => simp [append, ih]

/-- If operators spell a sequence and what they begin with spells another, that is its front part. -/
theorem exists_append {first block : Block} {rest : List Token}
    (spelled : block.tokens = first.tokens ++ rest) :
    ∃ second, block = first.append second ∧ second.tokens = rest := by
  induction first generalizing block with
  | done => exact ⟨block, rfl, spelled⟩
  | act offset action next ih =>
    cases block with
    | act offset' action' next' =>
      simp only [tokens_act, List.cons_append, List.cons.injEq, Token.mk.injEq,
        Operator.act.injEq] at spelled
      obtain ⟨⟨rfl, rfl⟩, tail⟩ := spelled
      obtain ⟨second, rfl, behind⟩ := ih tail
      exact ⟨second, rfl, behind⟩
    | done | call _ _ | loop _ _ _ _ | define _ _ _ _ => simp at spelled
  | call offset next ih =>
    cases block with
    | call offset' next' =>
      simp only [tokens_call, List.cons_append, List.cons.injEq, Token.mk.injEq, and_true] at spelled
      obtain ⟨rfl, tail⟩ := spelled
      obtain ⟨second, rfl, behind⟩ := ih tail
      exact ⟨second, rfl, behind⟩
    | done | act _ _ _ | loop _ _ _ _ | define _ _ _ _ => simp at spelled
  | loop opens body closes next _ ih =>
    cases block with
    | loop opens' body' closes' next' =>
      simp only [tokens_loop, List.cons_append, List.append_assoc, List.cons.injEq, Token.mk.injEq,
        and_true] at spelled
      obtain ⟨rfl, within⟩ := spelled
      obtain ⟨rfl, closed⟩ :=
        tokens_append_injective (closedBy_cons _ (.inl rfl)) (closedBy_cons _ (.inl rfl)) within
      simp only [List.cons.injEq, Token.mk.injEq, and_true] at closed
      obtain ⟨rfl, tail⟩ := closed
      obtain ⟨second, rfl, behind⟩ := ih tail
      exact ⟨second, rfl, behind⟩
    | done | act _ _ _ | call _ _ | define _ _ _ _ => simp at spelled
  | define opens body closes next _ ih =>
    cases block with
    | define opens' body' closes' next' =>
      simp only [tokens_define, List.cons_append, List.append_assoc, List.cons.injEq, Token.mk.injEq,
        and_true] at spelled
      obtain ⟨rfl, within⟩ := spelled
      obtain ⟨rfl, closed⟩ :=
        tokens_append_injective (closedBy_cons _ (.inr rfl)) (closedBy_cons _ (.inr rfl)) within
      simp only [List.cons.injEq, Token.mk.injEq, and_true] at closed
      obtain ⟨rfl, tail⟩ := closed
      obtain ⟨second, rfl, behind⟩ := ih tail
      exact ⟨second, rfl, behind⟩
    | done | act _ _ _ | call _ _ | loop _ _ _ _ => simp at spelled

theorem inside_append (first second : Block) :
    (first.append second).inside = first.inside ++ second.inside := by
  induction first with
  | done => rfl
  | act _ _ _ ih | call _ _ ih => exact ih
  | loop _ _ _ _ _ ih | define _ _ _ _ _ ih => simp [append, inside, ih]

theorem inside_subset_tail (block : Block) : block.inside ⊆ block.tokens.tail := by
  induction block with
  | done => exact List.Subset.refl _
  | act _ _ next ih | call _ next ih =>
    exact List.Subset.trans ih (List.tail_sublist next.tokens).subset
  | loop _ body _ next _ ih | define _ body _ next _ ih =>
    have onward := List.Subset.trans ih (List.tail_sublist next.tokens).subset
    simp only [inside, tokens_loop, tokens_define, List.tail_cons]
    exact List.append_subset.mpr ⟨List.subset_append_left _ _,
      List.subset_append_of_subset_right _ (List.cons_subset_cons _ onward)⟩

theorem inside_subset (block : Block) : block.inside ⊆ block.tokens :=
  List.Subset.trans block.inside_subset_tail (List.tail_sublist _).subset

theorem inside_drop_subset (count : Nat) (block : Block) : (block.drop count).inside ⊆ block.inside := by
  induction count generalizing block with
  | zero => exact List.Subset.refl _
  | succ count ih =>
    have later : block.tail.inside ⊆ block.inside := by
      cases block <;> simp [tail, inside]
    exact List.Subset.trans (ih block.tail) later

/-- An operator at the cut is none of those inside statements. -/
theorem offset_ne_of_inside {first second : Block} (increasing : Increasing (first.append second).tokens)
    {cut token : Token} (behind : second.first? = some cut)
    (within : token ∈ (first.append second).inside) : token.offset ≠ cut.offset := by
  rw [tokens_append, Increasing, List.pairwise_append] at increasing
  obtain ⟨_, ordered, before⟩ := increasing
  rw [← head?_tokens] at behind
  obtain ⟨rest, spelled⟩ := List.head?_eq_some_iff.mp behind
  rw [inside_append] at within
  rcases List.mem_append.mp within with front | back
  · exact Nat.ne_of_lt (before token (first.inside_subset front) cut (by simp [spelled]))
  · have later := second.inside_subset_tail back
    rw [spelled] at later ordered
    exact Nat.ne_of_gt ((List.pairwise_cons.mp ordered).1 token later)

/-- Where nothing inside statements is counted, each statement counts by its first operator. -/
theorem countP_tokens {counted : Token → Bool} {block : Block} {token : Token}
    (none : ∀ token ∈ block.inside, counted token = false) (begins : block.first? = some token) :
    block.tokens.countP counted = block.tail.tokens.countP counted + if counted token then 1 else 0 := by
  cases block with
  | done => cases begins
  | act _ _ _ | call _ _ =>
    cases begins
    simp [tail, List.countP_cons]
  | loop _ body _ next | define _ body _ next =>
    cases begins
    have skipped : body.tokens.countP counted = 0 := by
      rw [List.countP_eq_zero]
      intro token listed
      rw [none token (List.mem_append_left _ listed)]
      exact Bool.false_ne_true
    have closes := none _ (List.mem_append_right body.tokens (List.mem_cons_self ..))
    simp [tail, List.countP_cons, List.countP_append, skipped, closes]

end Block

/-- The innermost level with these statements left. -/
def Stack.skipTo (rest : Block) (stack : Stack) : Stack :=
  stack.modify fun level => { level with rest }

/-- The front part of a sequence that comes to its end comes to its own, and so does the run, which
stands at the back part then. -/
theorem Means.front {mode : CellMode} {depth : Nat} {first second : Block} {store last : Store}
    (means : Means mode depth (.statements (first.append second)) store last none) :
    ∃ left, Means mode depth (.statements first) store left none ∧
      ∀ stack : Stack, stack.inner.rest = first.append second → stack.depth = depth →
        Leads mode store stack left none (stack.skipTo second) := by
  -- By the statements of the front part. `Means.leads` runs a sequence to the end of its level, so it
  -- serves only for the bodies inside them.
  induction first generalizing store with
  | done =>
    refine ⟨store, .done, fun stack here _ => ?_⟩
    have same : stack.skipTo second = stack := by
      unfold Stack.skipTo Stack.modify
      rw [show second = stack.inner.rest from here.symm]
    rw [same]
    exact .here
  | act offset action next ih =>
    cases means with
    | acts result behind =>
      obtain ⟨left, front, leads⟩ := ih behind
      refine ⟨left, .acts result front, fun stack here deep => ?_⟩
      have more : stack.inner.rest ≠ .done := by simp [here, Block.append]
      refine (Leads.of_step ((Machine.Executes.acts here result).plain_step_at more)).trans ?_
      exact leads (stack.modify Level.advance) (congrArg Block.tail here) deep
  | call offset next ih =>
    cases means with
    | calls bound room inner behind =>
      obtain ⟨left, front, leads⟩ := ih behind
      refine ⟨left, .calls bound room inner front, fun stack here deep => ?_⟩
      subst deep
      have more : stack.inner.rest ≠ .done := by simp [here, Block.append]
      refine (Leads.of_step ((Machine.Executes.calls here bound room).plain_step_at more)).trans ?_
      refine (inner.leads (stack.push _) rfl rfl).trans (Leads.leaveCall.trans ?_)
      exact leads (stack.modify Level.advance) (congrArg Block.tail here) rfl
  | loop opens body closes next _ ih =>
    cases means with
    | skips zero behind =>
      obtain ⟨left, front, leads⟩ := ih behind
      refine ⟨left, .skips zero front, fun stack here deep => ?_⟩
      have more : stack.inner.rest ≠ .done := by simp [here, Block.append]
      refine (Leads.of_step ((Machine.Executes.skipsLoop here zero).plain_step_at more)).trans ?_
      exact leads (stack.modify Level.advance) (congrArg Block.tail here) deep
    | loops nonzero inner behind =>
      obtain ⟨left, front, leads⟩ := ih behind
      refine ⟨left, .loops nonzero inner front, fun stack here deep => ?_⟩
      have more : stack.inner.rest ≠ .done := by simp [here, Block.append]
      refine (Leads.of_step ((Machine.Executes.entersLoop here nonzero
        (Rules.plain_skips _ _ _)).plain_step_at more)).trans ?_
      refine (inner.leads stack closes (congrArg (· + 1) deep)).trans ?_
      exact leads (stack.modify Level.advance) (congrArg Block.tail here) deep
  | define opens body closes next _ ih =>
    cases means with
    | defines result behind =>
      obtain ⟨left, front, leads⟩ := ih behind
      refine ⟨left, .defines result front, fun stack here deep => ?_⟩
      have more : stack.inner.rest ≠ .done := by simp [here, Block.append]
      refine (Leads.of_step ((Machine.Executes.defines here result).plain_step_at more)).trans ?_
      exact leads (stack.modify Level.advance) (congrArg Block.tail here) deep

/-- No function has an operator that begins a statement of the script itself. -/
def FunctionTable.Inside (block : Block) (functions : FunctionTable Block) : Prop :=
  ∀ key body, functions.get? key = some body → body.tokens ⊆ block.inside

namespace Stack.Stands

variable {block : Block} {functions : FunctionTable Block} {stack : Stack}

/-- What stands inside the statements of a level stands inside those of the script, and so does all of
a level that is not the script itself. -/
theorem inside_subset (stands : stack.Stands block functions) (within : functions.Inside block) :
    stack.inner.rest.inside ⊆ block.inside ∧ (stack.outer ≠ [] → stack.inner.tokens ⊆ block.inside) := by
  induction stands with
  | @top rest place =>
    refine ⟨?_, absurd rfl⟩
    have left : block.drop _ = rest := place
    rw [← left]
    exact block.inside_drop_subset _
  | @inside around level outer opened place ih =>
    have whole : level.tokens ⊆ block.inside := by
      obtain ⟨opens, body, closes, next, here, entered⟩ | ⟨offset, next, key, body, here, called, bound,
        entered⟩ := opened?_cases opened
      · have same : level.tokens = body.tokens ++ [⟨closes, .loopEnd⟩] := congrArg Level.tokens entered
        have statement := ih.1
        rw [here] at statement
        rw [same]
        refine List.Subset.trans (List.append_subset.mpr ⟨?_, ?_⟩) statement
        · exact List.subset_append_left _ _
        · exact List.cons_subset.mpr ⟨by simp [Block.inside], List.nil_subset _⟩
      · have same : level.tokens = body.tokens ++ [] := congrArg Level.tokens entered
        rw [same, List.append_nil]
        exact within key body bound
    refine ⟨?_, fun _ => whole⟩
    intro token listed
    refine whole ?_
    rw [← Level.passed_append_remaining place]
    exact List.mem_append_right _ (List.mem_append_left _ (level.rest.inside_subset listed))

end Stack.Stands

theorem Machine.Stores.inside {rules : Rules} {machine : Machine} {after : Store} {block : Block}
    (stores : machine.Stores rules after)
    (stands : machine.stack.Stands block machine.store.functions)
    (within : machine.store.functions.Inside block) : after.functions.Inside block := by
  rcases stores.functions_cases with same | ⟨_, _, _, _, here, result⟩
  · rw [same]
    exact within
  · have statement := (stands.inside_subset within).1
    rw [here] at statement
    exact FunctionTable.forall_define within
      (List.Subset.trans (List.subset_append_left _ _) statement) result

theorem Attains.inside {mode : CellMode} {block : Block} {input : Text} {tape : Tape}
    {progress : Progress} (attained : Attains mode block input tape progress) (whole : block.Tidy) :
    progress.store.functions.Inside block :=
  attained.store (motive := fun store => store.functions.Inside block) whole nofun
    fun _ _ _ _ stands stores within => stores.inside stands within

end TapeStepper
