/-
Two executions of the worker's invocation, side by side.

A callback may throw anything, return an error with any message, or a text that is
rejected; `executions_alike` says that two executions differ in nothing else. The rules of
`app.end_alike` take both through the same branch. What they have in common is the bucket,
and how many callbacks have been made: the hook may answer by their number.
-/
import SynapseMcp.ApplicationTexts
import SynapseMcp.ServerViews

set_option autoImplicit false

namespace SynapseMcp

/-! ## What a callback throws

The model of a callback has one outcome for "it threw", since no `catch` of the server has a
name for what it catches. To say that what was thrown does not matter, the thrown value has to
be there first: `raising_answers` has it, and `answers` is what the server can see of them. -/

/-- What a callback does, with the exception it throws. -/
inductive raised (E α : Type) where
  | returned (value : α)
  | threw (exception : E)

/-- What was thrown is dropped by the `catch (...)`. -/
def raised.outcome {E α : Type} : raised E α → call_outcome α
  | .returned value => .returned value
  | .threw _ => .threw

/-- What one request meets outside the SDK, exceptions included. -/
structure raising_answers (E : Type) where
  allow_tool : Option (String → raised E Bool)
  now : raised E Int64
  evaluate : String → json → evaluation
  tool : String → json → raised E (Except handler_error tool_result)
  prompt : String → List (String × String) → raised E (Except handler_error prompt_result)
  resource : String → raised E (Except handler_error resource_result)
  filter_output :
    Option (Nat → String → List UInt8 → raised E (Except handler_error (List UInt8)))

/-- What the catch clauses see of it: every `catch` in the server is `catch (...)`. -/
def raising_answers.answers {E : Type} (env : raising_answers E) : application_answers where
  allow_tool := env.allow_tool.map fun allow_tool name => (allow_tool name).outcome
  now := env.now.outcome
  evaluate := env.evaluate
  tool name arguments := (env.tool name arguments).outcome
  prompt name values := (env.prompt name values).outcome
  resource uri := (env.resource uri).outcome
  filter_output := env.filter_output.map fun filter_output n operation text =>
    (filter_output n operation text).outcome

/-! ## What two executions may differ in

The relation between two executions is made of one relation for each thing that comes from
outside: exceptions, errors that a handler returns, texts, the hook, and arguments. Wherever the
source makes something public of a value the relation asks for equality, and elsewhere for
nothing. A rejected text may be anything, and what comes behind it too, since nothing behind it
is looked at.

Nothing is asked of the values that the source drops. What is thrown may be of any type, which is a
parameter of the statement and appears nowhere in it but there. -/

/-- Both throw, or both return something alike. -/
inductive outcomes_alike {α β : Type} (R : α → β → Prop) : call_outcome α → call_outcome β → Prop
  | threw : outcomes_alike R .threw .threw
  | returned {a : α} {b : β} (h : R a b) : outcomes_alike R (.returned a) (.returned b)

/-- Both return an error, whatever its message, or something alike. -/
inductive results_alike {α β : Type} (R : α → β → Prop) :
    Except handler_error α → Except handler_error β → Prop
  | error (err₁ err₂ : handler_error) : results_alike R (.error err₁) (.error err₂)
  | ok {a : α} {b : β} (h : R a b) : results_alike R (.ok a) (.ok b)

/-- Two values of `filter_output` that answer alike; what they let through may differ where
it is no text. -/
inductive hooks_alike :
    Option (Nat → String → List UInt8 → call_outcome (Except handler_error (List UInt8))) →
    Option (Nat → String → List UInt8 → call_outcome (Except handler_error (List UInt8))) → Prop
  | unset : hooks_alike none none
  | set {hook₁ hook₂ : Nat → String → List UInt8 → call_outcome (Except handler_error (List UInt8))}
      (h : ∀ n operation text, outcomes_alike
        (results_alike fun text₁ text₂ =>
          text₁ = text₂ ∨ valid_text text₁ = false ∧ valid_text text₂ = false)
        (hook₁ n operation text) (hook₂ n operation text)) :
      hooks_alike (some hook₁) (some hook₂)

section Alike

variable (env₁ env₂ : application_answers) (operation : String)

/-- The filter, after `n` callbacks, rejects the text. -/
def rejected (env : application_answers) (operation : String) (n : Nat) (text : List UInt8) :
    Prop :=
  server_policy.filter (env.filter_output.map (· n)) operation text = .returned none

/-- The same text, or two that are rejected. -/
def texts_alike (n : Nat) (text₁ text₂ : List UInt8) : Prop :=
  text₁ = text₂ ∨ rejected env₁ operation n text₁ ∧ rejected env₂ operation n text₂

/-- The results of a tool: both succeed or both fail, and what they say is alike. -/
inductive tool_results_alike (n : Nat) :
    Except handler_error tool_result → Except handler_error tool_result → Prop
  | ok {result₁ result₂ : tool_result}
      (h : texts_alike env₁ env₂ operation n result₁.text result₂.text) :
      tool_results_alike n (.ok result₁) (.ok result₂)
  | error {err₁ err₂ : handler_error}
      (h : texts_alike env₁ env₂ operation n err₁.public_message err₂.public_message) :
      tool_results_alike n (.error err₁) (.error err₂)

/-- The messages of a prompt and its description, from the `n`-th callback on: the same up
to the first text that is rejected, and then anything. -/
inductive messages_alike : Nat → List prompt_message → Option (List UInt8) →
    List prompt_message → Option (List UInt8) → Prop
  | nothing (n : Nat) : messages_alike n [] none [] none
  | description {n : Nat} {text₁ text₂ : List UInt8}
      (h : texts_alike env₁ env₂ operation n text₁ text₂) :
      messages_alike n [] (some text₁) [] (some text₂)
  | message {n : Nat} (message : prompt_message) {rest₁ rest₂ : List prompt_message}
      {description₁ description₂ : Option (List UInt8)}
      (h : messages_alike (n + 1) rest₁ description₁ rest₂ description₂) :
      messages_alike n (message :: rest₁) description₁ (message :: rest₂) description₂
  | rejected {n : Nat} {message₁ message₂ : prompt_message} (rest₁ rest₂ : List prompt_message)
      (description₁ description₂ : Option (List UInt8))
      (h₁ : rejected env₁ operation n message₁.text)
      (h₂ : rejected env₂ operation n message₂.text) :
      messages_alike n (message₁ :: rest₁) description₁ (message₂ :: rest₂) description₂

end Alike

/-- The same parameters, or a call of the same tool whose arguments the schema refuses. -/
def params_alike (env₁ env₂ : application_answers) (req₁ req₂ : request) : Prop :=
  req₁.params = req₂.params ∨
    ∃ name arguments₁ arguments₂, req₁.method = "tools/call" ∧
      named_params req₁.params = some (name, arguments₁) ∧
      named_params req₂.params = some (name, arguments₂) ∧
      validate (env₁.evaluate name) arguments₁ = .error .instance_mismatch ∧
      validate (env₂.evaluate name) arguments₂ = .error .instance_mismatch

/-- The callbacks made before the filter sees what a tool says: the hook, the clock and the
handler. -/
def application_answers.before_tool_text (env : application_answers) : Nat :=
  env.allow_tool.toList.length + 2

/-- Two executions that differ in what was thrown, in messages that are not for the public,
in what is rejected, and in arguments that are refused. -/
structure executions_alike (env₁ env₂ : application_answers) (req₁ req₂ : request) : Prop where
  id : req₁.id = req₂.id
  method : req₁.method = req₂.method
  params : params_alike env₁ env₂ req₁ req₂
  allow_tool : env₁.allow_tool = env₂.allow_tool
  now : env₁.now = env₂.now
  evaluate : env₁.evaluate = env₂.evaluate
  tool : ∀ name arguments, outcomes_alike
    (tool_results_alike env₁ env₂ req₁.method env₁.before_tool_text)
    (env₁.tool name arguments) (env₂.tool name arguments)
  prompt : ∀ name values, outcomes_alike
    (results_alike fun result₁ result₂ => messages_alike env₁ env₂ req₁.method 1
      result₁.messages result₁.description result₂.messages result₂.description)
    (env₁.prompt name values) (env₂.prompt name values)
  resource : ∀ uri, outcomes_alike
    (results_alike fun result₁ result₂ =>
      texts_alike env₁ env₂ req₁.method 1 result₁.text result₂.text)
    (env₁.resource uri) (env₂.resource uri)
  filter_output : hooks_alike env₁.filter_output env₂.filter_output

/-! ## Two computations

The rules take two computations side by side through the same branches. Both throw or both
return, and what they return is related; a bind needs the relation of its first parts as the
assumption of its second ones. In this way the argument follows the text of each method once,
for both executions. -/

/-- Both end in an exception, or both return, and then `Q` holds. -/
inductive app.end_alike {α β : Type}
    (Q : application_state → application_state → α → β → Prop) :
    application_state × call_outcome α → application_state × call_outcome β → Prop
  | threw (st₁ st₂ : application_state) : end_alike Q (st₁, .threw) (st₂, .threw)
  | returned {st₁ st₂ : application_state} {a : α} {b : β} (h : Q st₁ st₂ a b) :
      end_alike Q (st₁, .returned a) (st₂, .returned b)

section Rules

variable {α β γ δ : Type} {x : app α} {y : app β} {f : α → app γ} {g : β → app δ}
  {st₁ st₂ : application_state} {P : application_state → application_state → α → β → Prop}
  {Q : application_state → application_state → γ → δ → Prop} {R : α → β → Prop}

/-- Two values that are related, returned at once. -/
theorem app.alike_pure {a : α} {b : β} (h : P st₁ st₂ a b) :
    app.end_alike P ((pure a : app α) st₁) ((pure b : app β) st₂) := .returned h

/-- If the first parts are alike, and the second parts are for any two values that can come out,
then the wholes are alike. -/
theorem app.alike_bind (hx : app.end_alike P (x st₁) (y st₂))
    (hf : ∀ t₁ t₂ a b, P t₁ t₂ a b → app.end_alike Q (f a t₁) (g b t₂)) :
    app.end_alike Q ((x >>= f) st₁) ((y >>= g) st₂) := by
  rw [app.bind_run, app.bind_run]
  generalize x st₁ = left at hx
  generalize y st₂ = right at hx
  cases hx with
  | threw t₁ t₂ => exact .threw t₁ t₂
  | returned h => exact hf _ _ _ _ h

/-- A weaker relation of what is returned. -/
theorem app.end_alike.mono {P' : application_state → application_state → α → β → Prop}
    {left : application_state × call_outcome α} {right : application_state × call_outcome β}
    (h : app.end_alike P left right) (hP : ∀ t₁ t₂ a b, P t₁ t₂ a b → P' t₁ t₂ a b) :
    app.end_alike P' left right := by
  cases h with
  | threw t₁ t₂ => exact .threw t₁ t₂
  | returned h => exact .returned (hP _ _ _ _ h)

/-- The same bucket, and as many callbacks. -/
structure states_alike (n : Nat) (st₁ st₂ : application_state) : Prop where
  policy : st₁.policy_ = st₂.policy_
  left : st₁.calls.length = n
  right : st₂.calls.length = n

/-- Two callbacks that answer alike count as one callback each. -/
theorem app.alike_call {n : Nat} {answer₁ : call_outcome α} {answer₂ : call_outcome β}
    (hst : states_alike n st₁ st₂) (h : outcomes_alike R answer₁ answer₂)
    (made₁ made₂ : application_call) :
    app.end_alike (fun t₁ t₂ a b => states_alike (n + 1) t₁ t₂ ∧ R a b)
      (app.call made₁ answer₁ st₁) (app.call made₂ answer₂ st₂) := by
  cases h with
  | threw => exact .threw _ _
  | returned h =>
      refine .returned ⟨⟨hst.policy, ?_, ?_⟩, h⟩
      · simp [hst.left]
      · simp [hst.right]

end Rules

/-- An outcome is like itself. -/
theorem outcomes_alike_refl {α : Type} (x : call_outcome α) : outcomes_alike Eq x x := by
  cases x with
  | threw => exact .threw
  | returned a => exact .returned rfl

/-! ## The filter

The filter is where texts that differ become alike: both are rejected, or they are the same text
and the hook lets the same out. The hook may answer by the number of callbacks made so far, so
the two executions have to have made as many whenever a hook is set. -/

section Filter

variable {env₁ env₂ : application_answers} {operation : String}

/-- Both filters throw, or both let the same text out, or none. -/
theorem filters_alike (hhooks : hooks_alike env₁.filter_output env₂.filter_output) (n : Nat)
    (text : List UInt8) :
    server_policy.filter (env₁.filter_output.map (· n)) operation text =
      server_policy.filter (env₂.filter_output.map (· n)) operation text := by
  cases hvalid : valid_text text with
  | false => simp [server_policy.filter, hvalid]
  | true =>
      generalize env₁.filter_output = filter₁ at hhooks
      generalize env₂.filter_output = filter₂ at hhooks
      cases hhooks with
      | unset => rfl
      | @set hook₁ hook₂ h =>
          have halike := h n operation text
          dsimp only [Option.map_some, server_policy.filter]
          generalize hook₁ n operation text = answer₁ at halike
          generalize hook₂ n operation text = answer₂ at halike
          cases halike with
          | threw => rfl
          | returned hresult =>
              cases hresult with
              | error err₁ err₂ => rfl
              | ok htext =>
                  rcases htext with rfl | ⟨hinvalid₁, hinvalid₂⟩
                  · rfl
                  · simp [hinvalid₁, hinvalid₂]

/-- `app.filter` is `server_policy.filter`, with a callback counted if a hook is asked. -/
theorem filter_run (env : application_answers) (operation : String) (text : List UInt8)
    (st : application_state) :
    ∃ st', app.filter env operation text st = (st', server_policy.filter
        (env.filter_output.map (· st.calls.length)) operation text) ∧
      st'.policy_ = st.policy_ ∧
      (valid_text text = true → st'.calls.length =
        st.calls.length + env.filter_output.toList.length) := by
  unfold app.filter
  cases env.filter_output with
  | none => exact ⟨st, rfl, rfl, fun _ => rfl⟩
  | some filter_output =>
      by_cases hvalid : valid_text text = true
      · refine ⟨{ st with calls := st.calls ++ [.filter_output operation text] }, ?_, rfl, ?_⟩
        · dsimp only
          rw [if_pos hvalid]
          rfl
        · intro _
          simp
      · refine ⟨st, ?_, rfl, fun h => absurd h hvalid⟩
        dsimp only
        rw [if_neg hvalid]
        rfl

/-- What the filter lets out was a text before. -/
theorem filter_some {hook : filter_hook} {text filtered : List UInt8}
    (h : server_policy.filter hook operation text = .returned (some filtered)) :
    valid_text text = true := by
  by_contra hinvalid
  unfold server_policy.filter at h
  rw [if_pos (by simpa using hinvalid)] at h
  cases h

/-- Two texts that are alike come out of the filter as the same text, or as none. -/
theorem rejected_alike (hhooks : hooks_alike env₁.filter_output env₂.filter_output) {n : Nat}
    {text₁ text₂ : List UInt8} (h : texts_alike env₁ env₂ operation n text₁ text₂) :
    server_policy.filter (env₁.filter_output.map (· n)) operation text₁ =
      server_policy.filter (env₂.filter_output.map (· n)) operation text₂ := by
  rcases h with rfl | ⟨h₁, h₂⟩
  · exact filters_alike hhooks n text₁
  · exact h₁.trans h₂.symm

/-- The same comes out. If something does, both counted the same callbacks, and without a
hook the number does not matter. -/
theorem app.alike_filter (hhooks : hooks_alike env₁.filter_output env₂.filter_output)
    {st₁ st₂ : application_state} {n : Nat} (hst : states_alike n st₁ st₂)
    {text₁ text₂ : List UInt8} (h : texts_alike env₁ env₂ operation n text₁ text₂) :
    app.end_alike (fun t₁ t₂ a b => a = b ∧
        (a.isSome = true → states_alike (n + env₁.filter_output.toList.length) t₁ t₂))
      (app.filter env₁ operation text₁ st₁) (app.filter env₂ operation text₂ st₂) := by
  obtain ⟨t₁, hrun₁, hpolicy₁, hcalls₁⟩ := filter_run env₁ operation text₁ st₁
  obtain ⟨t₂, hrun₂, hpolicy₂, hcalls₂⟩ := filter_run env₂ operation text₂ st₂
  have hset : env₁.filter_output.toList.length = env₂.filter_output.toList.length := by
    generalize env₁.filter_output = filter₁ at hhooks
    generalize env₂.filter_output = filter₂ at hhooks
    cases hhooks <;> rfl
  rw [hst.left] at hrun₁ hcalls₁
  rw [hst.right] at hrun₂ hcalls₂
  rw [hrun₁, hrun₂, ← rejected_alike hhooks h]
  cases houtcome : server_policy.filter (env₁.filter_output.map (· n)) operation text₁ with
  | threw => exact .threw t₁ t₂
  | returned filtered =>
      refine .returned ⟨rfl, fun hsome => ?_⟩
      obtain ⟨text, rfl⟩ := Option.isSome_iff_exists.mp hsome
      refine ⟨by rw [hpolicy₁, hpolicy₂, hst.policy], hcalls₁ (filter_some houtcome), ?_⟩
      rw [hset]
      exact hcalls₂ (filter_some ((rejected_alike hhooks h).symm.trans houtcome))

/-- The number of callbacks made before only matters to a hook. -/
theorem rejected.at_number {env : application_answers} {n m : Nat}
    (hm : env.filter_output = none ∨ m = n) {text : List UInt8}
    (h : rejected env operation n text) : rejected env operation m text := by
  rcases hm with hunset | rfl
  · rw [rejected, hunset] at h ⊢
    exact h
  · exact h

/-- A hook is set in both executions or in neither. -/
theorem hooks_alike.unset_right (hhooks : hooks_alike env₁.filter_output env₂.filter_output)
    (h : env₁.filter_output = none) : env₂.filter_output = none := by
  rw [h] at hhooks
  generalize env₂.filter_output = filter₂ at hhooks
  cases hhooks
  rfl

/-- Without a hook the texts are alike after any number of callbacks. -/
theorem texts_alike.at_number (hhooks : hooks_alike env₁.filter_output env₂.filter_output)
    {n m : Nat} (hm : env₁.filter_output = none ∨ m = n) {text₁ text₂ : List UInt8}
    (h : texts_alike env₁ env₂ operation n text₁ text₂) :
    texts_alike env₁ env₂ operation m text₁ text₂ :=
  h.imp_right fun h => ⟨h.1.at_number hm, h.2.at_number (hm.imp_left hhooks.unset_right)⟩

end Filter

/-! ## The methods

For a tool the two executions agree on the parameters up to arguments that the schema refuses;
the text about such arguments is fixed. Then come the hook, the clock, the bucket and the
handler, in the same order in both. -/

section Methods

variable {s : server} {env₁ env₂ : application_answers} {req req₁ req₂ : request}
  {st₁ st₂ : application_state}

/-- The replies are the same. -/
abbrev replies_alike : application_state × call_outcome response →
    application_state × call_outcome response → Prop :=
  app.end_alike fun _ _ reply₁ reply₂ => reply₁ = reply₂

/-- What a tool says after its handler: the texts of the two executions are filtered, and texts
that are alike become one reply. -/
theorem tool_handled_alike (hhooks : hooks_alike env₁.filter_output env₂.filter_output) {n : Nat}
    (hst : states_alike n st₁ st₂) (name : String) (arguments : json)
    (h : outcomes_alike (tool_results_alike env₁ env₂ req.method (n + 1))
      (env₁.tool name arguments) (env₂.tool name arguments)) :
    replies_alike (tool_handled env₁ req name arguments st₁)
      (tool_handled env₂ req name arguments st₂) := by
  refine app.alike_bind (app.alike_call hst h _ _) ?_
  rintro t₁ t₂ result₁ result₂ ⟨ht, hresults⟩
  cases hresults with
  | ok htexts | error htexts =>
      refine app.alike_bind (app.alike_filter hhooks ht htexts) ?_
      rintro u₁ u₂ filtered - ⟨rfl, -⟩
      cases filtered <;> exact app.alike_pure rfl

/-- The arguments may differ: what is said about them is fixed. -/
theorem tool_mismatch_alike (hhooks : hooks_alike env₁.filter_output env₂.filter_output) {n : Nat}
    (hst : states_alike n st₁ st₂) (hid : req₁.id = req₂.id) (hmethod : req₁.method = req₂.method)
    (kind : validation_failure_kind) :
    replies_alike (tool_mismatch env₁ req₁ kind st₁) (tool_mismatch env₂ req₂ kind st₂) := by
  unfold tool_mismatch internal_error tool_reply reply_with
  rw [hid, hmethod]
  by_cases hkind : kind ≠ .instance_mismatch
  · rw [if_pos hkind, if_pos hkind]
    exact app.alike_pure rfl
  · rw [if_neg hkind, if_neg hkind]
    refine app.alike_bind (app.alike_filter hhooks hst (.inl rfl)) ?_
    rintro u₁ u₂ filtered - ⟨rfl, -⟩
    cases filtered <;> exact app.alike_pure rfl

/-- The hook for tools, whose call counts if it is set. -/
theorem alike_allow (hallow : env₁.allow_tool = env₂.allow_tool) (name : String) {n : Nat}
    (hst : states_alike n st₁ st₂) :
    app.end_alike (fun t₁ t₂ a b => a = b ∧
        states_alike (n + env₁.allow_tool.toList.length) t₁ t₂)
      (app.allow env₁ name st₁) (app.allow env₂ name st₂) := by
  unfold app.allow
  rw [← hallow]
  cases env₁.allow_tool with
  | none => exact app.alike_pure ⟨rfl, hst⟩
  | some allow_tool =>
      exact (app.alike_call hst (outcomes_alike_refl (allow_tool name)) _ _).mono
        fun _ _ _ _ h => ⟨h.2, h.1⟩

/-- The bucket is the same, so it grants alike. -/
theorem alike_consume (hnow : env₁.now = env₂.now) {n : Nat} (hst : states_alike n st₁ st₂) :
    app.end_alike (fun t₁ t₂ a b => a = b ∧ states_alike (n + 1) t₁ t₂)
      (app.consume env₁ st₁) (app.consume env₂ st₂) := by
  unfold app.consume
  rw [← hnow]
  refine app.alike_bind (app.alike_call hst (outcomes_alike_refl env₁.now) _ _) ?_
  rintro t₁ t₂ now - ⟨ht, rfl⟩
  refine .returned ⟨by rw [ht.policy], by rw [ht.policy], ht.left, ht.right⟩

/-- After the token was taken: the same arguments, or two that the schema refuses. -/
theorem tool_granted_alike (h : executions_alike env₁ env₂ req₁ req₂) {name : String}
    {arguments₁ arguments₂ : json}
    (harguments : arguments₁ = arguments₂ ∨
      validate (env₁.evaluate name) arguments₁ = .error .instance_mismatch ∧
        validate (env₂.evaluate name) arguments₂ = .error .instance_mismatch)
    (hst : states_alike (env₁.allow_tool.toList.length + 1) st₁ st₂) :
    replies_alike (tool_granted env₁ req₁ name arguments₁ st₁)
      (tool_granted env₂ req₂ name arguments₂ st₂) := by
  unfold tool_granted
  rcases harguments with rfl | ⟨hmismatch₁, hmismatch₂⟩
  · rw [← h.evaluate]
    cases validate (env₁.evaluate name) arguments₁ with
    | error kind => exact tool_mismatch_alike h.filter_output hst h.id h.method kind
    | ok _ =>
        have hhandled := @tool_handled_alike env₁ env₂ req₁ st₁ st₂ h.filter_output _ hst name
          arguments₁ (h.tool name arguments₁)
        have hreq : tool_handled env₂ req₁ name arguments₁ = tool_handled env₂ req₂ name
            arguments₁ := by
          unfold tool_handled tool_reply reply_with
          rw [h.id, h.method]
        rw [hreq] at hhandled
        exact hhandled
  · rw [hmismatch₁, hmismatch₂]
    exact tool_mismatch_alike h.filter_output hst h.id h.method _

/-- Alike parameters name nothing in both executions, or name the same thing; the arguments are
the same then, or the schema refuses both. -/
theorem params_alike.named (h : params_alike env₁ env₂ req₁ req₂) :
    (named_params req₁.params = none ∧ named_params req₂.params = none) ∨
      ∃ name arguments₁ arguments₂, named_params req₁.params = some (name, arguments₁) ∧
        named_params req₂.params = some (name, arguments₂) ∧
        (arguments₁ = arguments₂ ∨
          validate (env₁.evaluate name) arguments₁ = .error .instance_mismatch ∧
            validate (env₂.evaluate name) arguments₂ = .error .instance_mismatch) := by
  rcases h with hsame | ⟨name, arguments₁, arguments₂, -, h₁, h₂, hmismatch⟩
  · cases hnamed : named_params req₁.params with
    | none =>
        rw [hsame] at hnamed
        exact .inl ⟨rfl, hnamed⟩
    | some named =>
        obtain ⟨name, arguments⟩ := named
        have hnamed' := hnamed
        rw [hsame] at hnamed'
        exact .inr ⟨name, arguments, arguments, rfl, hnamed', .inl rfl⟩
  · exact .inr ⟨name, arguments₁, arguments₂, h₁, h₂, .inr hmismatch⟩

/-- Two calls of a tool are answered alike: the branches are decided by what they have in
common. -/
theorem tools_call_alike (h : executions_alike env₁ env₂ req₁ req₂)
    (hst : states_alike 0 st₁ st₂) :
    replies_alike (tools_call s env₁ req₁ st₁) (tools_call s env₂ req₂ st₂) := by
  unfold tools_call invalid_params
  rcases h.params.named with ⟨hnone₁, hnone₂⟩ | ⟨name, arguments₁, arguments₂, h₁, h₂, harguments⟩
  · rw [hnone₁, hnone₂, h.id]
    exact app.alike_pure rfl
  · rw [h₁, h₂, h.id]
    dsimp only
    cases s.tools_.lookup name with
    | none => exact app.alike_pure rfl
    | some descriptor =>
        refine app.alike_bind (alike_allow h.allow_tool name hst) ?_
        rintro t₁ t₂ allowed - ⟨rfl, ht⟩
        cases allowed with
        | false => exact app.alike_pure rfl
        | true =>
            refine app.alike_bind (alike_consume h.now ht) ?_
            rintro u₁ u₂ granted - ⟨rfl, hu⟩
            cases granted with
            | false => exact app.alike_pure rfl
            | true =>
                rw [Nat.zero_add] at hu
                exact tool_granted_alike h harguments hu

/-! ### Prompts and resources

A prompt's messages are alike up to the first that is rejected, and at that point both
executions answer with the same error; the description is only reached when all messages came
through. A resource has one text. -/

/-- The descriptions that are left after the messages. -/
def descriptions_alike (env₁ env₂ : application_answers) (operation : String) (n : Nat)
    (description₁ description₂ : Option (List UInt8)) : Prop :=
  (description₁ = none ∧ description₂ = none) ∨ ∃ text₁ text₂, description₁ = some text₁ ∧
    description₂ = some text₂ ∧ texts_alike env₁ env₂ operation n text₁ text₂

/-- The induction is on what the two lists have in common. `n` counts the texts, `m` the
callbacks; without a hook the texts are not counted among them. -/
theorem prompt_messages_alike (hhooks : hooks_alike env₁.filter_output env₂.filter_output)
    {n m : Nat} (hm : env₁.filter_output = none ∨ m = n) (hst : states_alike m st₁ st₂)
    {messages₁ messages₂ : List prompt_message} {description₁ description₂ : Option (List UInt8)}
    (h : messages_alike env₁ env₂ req.method n messages₁ description₁ messages₂ description₂) :
    app.end_alike (fun t₁ t₂ a b => a = b ∧ (a.isSome = true → ∃ m, states_alike m t₁ t₂ ∧
        descriptions_alike env₁ env₂ req.method m description₁ description₂))
      (prompt_messages env₁ req messages₁ st₁) (prompt_messages env₂ req messages₂ st₂) := by
  induction h generalizing m st₁ st₂ with
  | nothing n => exact app.alike_pure ⟨rfl, fun _ => ⟨m, hst, .inl ⟨rfl, rfl⟩⟩⟩
  | description htexts =>
      exact app.alike_pure
        ⟨rfl, fun _ => ⟨m, hst, .inr ⟨_, _, rfl, rfl, htexts.at_number hhooks hm⟩⟩⟩
  | @message n message rest₁ rest₂ description₁ description₂ h ih =>
      unfold prompt_messages
      cases message.role.wire with
      | none => exact app.alike_pure ⟨rfl, by simp⟩
      | some role =>
          refine app.alike_bind (app.alike_filter hhooks hst (.inl rfl)) ?_
          rintro t₁ t₂ filtered _ ⟨rfl, ht⟩
          cases filtered with
          | none => exact app.alike_pure ⟨rfl, by simp⟩
          | some text =>
              have hfiltered := ht rfl
              have hnext : env₁.filter_output = none ∨
                  m + env₁.filter_output.toList.length = n + 1 := by
                cases hset : env₁.filter_output with
                | none => exact .inl rfl
                | some hook =>
                    rw [hset] at hm
                    rcases hm with hunset | rfl
                    · cases hunset
                    · exact .inr rfl
              refine app.alike_bind (ih hnext hfiltered) ?_
              rintro u₁ u₂ messages _ ⟨rfl, hu⟩
              cases messages with
              | none => exact app.alike_pure ⟨rfl, by simp⟩
              | some messages => exact app.alike_pure ⟨rfl, fun _ => hu rfl⟩
  | @rejected n message₁ message₂ rest₁ rest₂ description₁ description₂ h₁ h₂ =>
      -- either side ends here: with the role, or with the filter
      have hstops : ∀ (env : application_answers) {st : application_state} (message rest),
          rejected env req.method st.calls.length message.text →
          ∃ t, prompt_messages env req (message :: rest) st = (t, .returned none) := by
        intro env st message rest hrejected
        unfold prompt_messages
        cases message.role.wire with
        | none => exact ⟨st, rfl⟩
        | some role =>
            obtain ⟨t, hrun, -, -⟩ := filter_run env req.method message.text st
            rw [hrejected] at hrun
            exact ⟨t, app.bind_returned hrun⟩
      obtain ⟨t₁, hrun₁⟩ := hstops env₁ message₁ rest₁ (hst.left ▸ h₁.at_number hm)
      obtain ⟨t₂, hrun₂⟩ := hstops env₂ message₂ rest₂
        (hst.right ▸ h₂.at_number (hm.imp_left hhooks.unset_right))
      rw [hrun₁, hrun₂]
      exact .returned ⟨rfl, by simp⟩

/-- What becomes of two results of a prompt's handler that are alike. -/
theorem prompt_handled_alike (hhooks : hooks_alike env₁.filter_output env₂.filter_output)
    {n : Nat} (hst : states_alike n st₁ st₂) {result₁ result₂ : prompt_result}
    (h : messages_alike env₁ env₂ req.method n result₁.messages result₁.description
      result₂.messages result₂.description) :
    replies_alike (prompt_handled env₁ req result₁ st₁) (prompt_handled env₂ req result₂ st₂) := by
  refine app.alike_bind (prompt_messages_alike hhooks (.inr rfl) hst h) ?_
  rintro t₁ t₂ messages _ ⟨rfl, ht⟩
  cases messages with
  | none => exact app.alike_pure rfl
  | some messages =>
      obtain ⟨m, hm, hdescriptions⟩ := ht rfl
      dsimp only
      rcases hdescriptions with ⟨hnone₁, hnone₂⟩ | ⟨text₁, text₂, hsome₁, hsome₂, htexts⟩
      · rw [hnone₁, hnone₂]
        exact app.alike_pure rfl
      · rw [hsome₁, hsome₂]
        refine app.alike_bind (app.alike_filter hhooks hm htexts) ?_
        rintro u₁ u₂ filtered _ ⟨rfl, -⟩
        cases filtered <;> exact app.alike_pure rfl

/-- Two requests for a prompt, whose handlers return alike, are answered alike. -/
theorem prompts_get_alike (hhooks : hooks_alike env₁.filter_output env₂.filter_output)
    (hst : states_alike 0 st₁ st₂)
    (h : ∀ name values, outcomes_alike
      (results_alike fun result₁ result₂ => messages_alike env₁ env₂ req.method 1
        result₁.messages result₁.description result₂.messages result₂.description)
      (env₁.prompt name values) (env₂.prompt name values)) :
    replies_alike (prompts_get s env₁ req st₁) (prompts_get s env₂ req st₂) := by
  unfold prompts_get
  cases named_params req.params with
  | none => exact app.alike_pure rfl
  | some named =>
      obtain ⟨name, arguments⟩ := named
      dsimp only
      cases s.prompts_.lookup name with
      | none => exact app.alike_pure rfl
      | some descriptor =>
          dsimp only
          cases prompt_values descriptor.arguments arguments.members with
          | none => exact app.alike_pure rfl
          | some values =>
              dsimp only
              -- up to here both take the same way, since it depends on the request and the tables
              by_cases hmissing : (!required_present descriptor.arguments values) = true
              · rw [if_pos hmissing, if_pos hmissing]
                exact app.alike_pure rfl
              · rw [if_neg hmissing, if_neg hmissing]
                refine app.alike_bind (app.alike_call hst (h name values) _ _) ?_
                rintro t₁ t₂ result₁ result₂ ⟨ht, hresults⟩
                cases hresults with
                | error err₁ err₂ => exact app.alike_pure rfl
                | ok hmessages => exact prompt_handled_alike hhooks ht hmessages

/-- The same for a resource: where the hooks are alike and the texts of both handlers are, so
are the replies. -/
theorem resources_read_alike (hhooks : hooks_alike env₁.filter_output env₂.filter_output)
    (hst : states_alike 0 st₁ st₂)
    (h : ∀ uri, outcomes_alike
      (results_alike fun result₁ result₂ =>
        texts_alike env₁ env₂ req.method 1 result₁.text result₂.text)
      (env₁.resource uri) (env₂.resource uri)) :
    replies_alike (resources_read s env₁ req st₁) (resources_read s env₂ req st₂) := by
  unfold resources_read
  cases read_params req.params with
  | none => exact app.alike_pure rfl
  | some uri =>
      dsimp only
      cases s.resources_.lookup uri with
      | none => exact app.alike_pure rfl
      | some descriptor =>
          refine app.alike_bind (app.alike_call hst (h uri) _ _) ?_
          rintro t₁ t₂ result₁ result₂ ⟨ht, hresults⟩
          cases hresults with
          | error err₁ err₂ => exact app.alike_pure rfl
          | ok htexts =>
              refine app.alike_bind (app.alike_filter hhooks ht htexts) ?_
              rintro u₁ u₂ filtered _ ⟨rfl, -⟩
              cases filtered <;> exact app.alike_pure rfl

/-! ### Any request

The requests have the same parameters, or are calls of the same tool with arguments that are
refused; the member `jsonrpc` is not read by any method. So the methods before are compared
pairwise, and the catch makes the same internal error of any exception. -/

/-- The version of the request is not used in its answer. -/
theorem prompt_messages_version (env : application_answers) (req : request) (jsonrpc : String)
    (messages : List prompt_message) :
    prompt_messages env { req with jsonrpc := jsonrpc } messages =
      prompt_messages env req messages := by
  induction messages with
  | nil => rfl
  | cons message rest ih =>
      unfold prompt_messages
      rw [ih]

/-- The version of the protocol is not looked at: two requests that differ in `jsonrpc` only get
the same call of the application and the same reply. -/
theorem application_version (s : server) (env : application_answers) (req : request)
    (jsonrpc : String) :
    application s env { req with jsonrpc := jsonrpc } = application s env req := by
  have hhandled : prompt_handled env { req with jsonrpc := jsonrpc } = prompt_handled env req := by
    funext result
    unfold prompt_handled
    rw [prompt_messages_version]
    rfl
  have hget : prompts_get s env { req with jsonrpc := jsonrpc } = prompts_get s env req := by
    unfold prompts_get
    rw [hhandled]
    rfl
  unfold application
  rw [hget]
  rfl

/-- Requests with the same parameters are answered as one request; the others call a
tool. -/
theorem application_alike (h : executions_alike env₁ env₂ req₁ req₂)
    (hst : states_alike 0 st₁ st₂) :
    replies_alike (application s env₁ req₁ st₁) (application s env₂ req₂ st₂) := by
  by_cases htool : req₁.method = "tools/call"
  · rw [application_tools_call htool, application_tools_call (h.method.symm.trans htool)]
    exact tools_call_alike h hst
  · have hsame : application s env₂ req₂ = application s env₂ req₁ := by
      -- only the calls of tools may differ in their parameters
      rcases h.params with hparams | ⟨_, _, _, hcall, -⟩
      · rw [← application_version s env₂ req₁ req₂.jsonrpc, h.id, h.method, hparams]
      · exact absurd hcall htool
    rw [hsame]
    -- the lists are functions of the server; the other two ask the hook, which is the same
    unfold application
    by_cases htools : req₁.method = "tools/list"
    · rw [if_pos htools, if_pos htools]
      exact app.alike_pure rfl
    rw [if_neg htools, if_neg htools, if_neg htool, if_neg htool]
    by_cases hprompts : req₁.method = "prompts/list"
    · rw [if_pos hprompts, if_pos hprompts]
      exact app.alike_pure rfl
    rw [if_neg hprompts, if_neg hprompts]
    by_cases hget : req₁.method = "prompts/get"
    · rw [if_pos hget, if_pos hget]
      exact prompts_get_alike h.filter_output hst h.prompt
    rw [if_neg hget, if_neg hget]
    by_cases htemplates : req₁.method = "resources/templates/list"
    · rw [if_pos htemplates, if_pos htemplates]
      exact app.alike_pure rfl
    rw [if_neg htemplates, if_neg htemplates]
    by_cases hresources : req₁.method = "resources/list"
    · rw [if_pos hresources, if_pos hresources]
      exact app.alike_pure rfl
    rw [if_neg hresources, if_neg hresources]
    by_cases hread : req₁.method = "resources/read"
    · rw [if_pos hread, if_pos hread]
      exact resources_read_alike h.filter_output hst h.resource
    rw [if_neg hread, if_neg hread]
    exact app.alike_pure rfl

/-- An exception of either becomes the same internal error. -/
theorem invocation_alike (h : executions_alike env₁ env₂ req₁ req₂)
    (hst : states_alike 0 st₁ st₂) :
    (invocation s env₁ req₁ st₁).2 = (invocation s env₂ req₂ st₂).2 := by
  have halike := @application_alike s env₁ env₂ req₁ req₂ st₁ st₂ h hst
  unfold invocation
  generalize application s env₁ req₁ st₁ = left at halike
  generalize application s env₂ req₂ st₂ = right at halike
  cases halike with
  | threw t₁ t₂ => exact congrArg (failure · .internal_error "Internal error") h.id
  | returned hreply => exact hreply

end Methods

/-! ## The ID of a reply

Every reply that a method returns carries the ID of its request. It is needed for the size: a
reply that is replaced is made from its ID, the method and its kind only. -/

section Ids

variable {s : server} {env : application_answers} {req : request}

/-- Every reply to the request carries its ID. -/
abbrev carries_id (req : request) (x : app response) : Prop := x.answers (·.id = req.id)

/-- Behind the bucket every branch answers under the request's ID. -/
theorem tool_granted_id (name : String) (arguments : json) :
    carries_id req (tool_granted env req name arguments) := by
  unfold tool_granted
  split
  · unfold tool_mismatch
    split
    · exact app.answers_pure rfl
    · refine app.answers_bind fun text => ?_
      cases text <;> exact app.answers_pure rfl
  · refine app.answers_bind fun result => ?_
    refine app.answers_bind fun filtered => ?_
    cases filtered <;> exact app.answers_pure rfl

/-- So does a call that does not come so far. -/
theorem tools_call_id : carries_id req (tools_call s env req) := by
  unfold tools_call
  split
  · exact app.answers_pure rfl
  split
  · exact app.answers_pure rfl
  refine app.answers_bind fun allowed => ?_
  split
  · exact app.answers_pure rfl
  refine app.answers_bind fun granted => ?_
  split
  · exact app.answers_pure rfl
  exact tool_granted_id _ _

/-- And a prompt, with its messages or with an error. -/
theorem prompt_handled_id (result : prompt_result) :
    carries_id req (prompt_handled env req result) := by
  refine app.answers_bind fun messages => ?_
  cases messages with
  | none => exact app.answers_pure rfl
  | some messages =>
      dsimp only
      cases result.description with
      | none => exact app.answers_pure rfl
      | some text =>
          refine app.answers_bind fun filtered => ?_
          cases filtered <;> exact app.answers_pure rfl

theorem prompts_get_id : carries_id req (prompts_get s env req) := by
  unfold prompts_get
  split
  · exact app.answers_pure rfl
  split
  · exact app.answers_pure rfl
  split
  · exact app.answers_pure rfl
  split
  · exact app.answers_pure rfl
  refine app.answers_bind fun result => ?_
  cases result with
  | error err => exact app.answers_pure rfl
  | ok result => exact prompt_handled_id result

theorem resources_read_id : carries_id req (resources_read s env req) := by
  unfold resources_read
  split
  · exact app.answers_pure rfl
  split
  · exact app.answers_pure rfl
  refine app.answers_bind fun result => ?_
  cases result with
  | error err => exact app.answers_pure rfl
  | ok result =>
      refine app.answers_bind fun filtered => ?_
      cases filtered <;> exact app.answers_pure rfl

theorem list_reply_id (key invalid : String) (items : List json) :
    (list_reply req key invalid items).id = req.id := by
  unfold list_reply
  split <;> rfl

/-- Every method answers under the ID of its request, in its result and in each of its errors;
one case for each method of the dispatch, and one for an unknown one. -/
theorem application_id : carries_id req (application s env req) := by
  unfold application
  split
  · exact app.answers_pure (list_reply_id _ _ _)
  split
  · exact tools_call_id
  split
  · exact app.answers_pure (list_reply_id _ _ _)
  split
  · exact prompts_get_id
  split
  · exact app.answers_pure (list_reply_id _ _ _)
  split
  · exact app.answers_pure (list_reply_id _ _ _)
  split
  · exact resources_read_id
  · exact app.answers_pure rfl

/-- And so does the catch. -/
theorem invocation_id (s : server) (env : application_answers) (req : request)
    (st : application_state) : (invocation s env req st).2.id = req.id := by
  unfold invocation
  cases hrun : application s env req st with
  | mk st' outcome =>
      cases outcome with
      | threw => rfl
      | returned reply => exact application_id st st' reply hrun

end Ids

/-! ## Size

A reply that does not fit is replaced by one that says nothing of its content. Two such replies
under one ID become the same frame, if they are of one kind, so that their contents cannot be
told apart by it.

What the frame is made from is the ID, the method and whether there was a result. The encoders
of the two executions may differ in what else they let through; it is enough that both refuse
the reply and pass a frame on. -/

/-- A reply that was too large is replaced by what its ID, the method and its kind give. -/
theorem emit_replaced {a : emit_answers} {reply : response} {method : String} {wire : json}
    (hfits : a.frame_fits reply.to_json = false) (h : (emit a reply method).1 = some wire) :
    wire = (replacement reply method).to_json := by
  unfold emit at h
  rw [hfits] at h
  by_cases hthrows : a.encode_throws = true
  · rw [if_pos hthrows] at h
    cases h
  rw [if_neg hthrows, if_neg Bool.false_ne_true] at h
  dsimp only at h
  by_cases hreplaced : a.frame_fits (replacement reply method).to_json = true
  · rw [if_pos hreplaced] at h
    exact (Option.some.inj h).symm
  · rw [if_neg hreplaced] at h
    cases h

/-- A replacement is made from the ID, the method and whether there was a result. -/
theorem replacement_alike {reply₁ reply₂ : response} (method : String) (hid : reply₁.id = reply₂.id)
    (hresult : reply₁.result.isSome = reply₂.result.isSome) :
    replacement reply₁ method = replacement reply₂ method := by
  unfold replacement
  rw [hid, hresult]

/-- The replies of two executions that are alike are the same. A reply that `emit` replaces
carries the ID of the request; two of them are replaced by the same frame if they have the
same ID and method and both are results or both are errors. -/
theorem replies_disclose_nothing {E : Type} :
    (∀ (s : server) (p : server_policy) (env₁ env₂ : raising_answers E) (req₁ req₂ : request),
      executions_alike env₁.answers env₂.answers req₁ req₂ →
      (invocation s env₁.answers req₁ ⟨p, []⟩).2 = (invocation s env₂.answers req₂ ⟨p, []⟩).2) ∧
    (∀ (s : server) (env : raising_answers E) (req : request) (st : application_state),
      (invocation s env.answers req st).2.id = req.id) ∧
    ∀ (a₁ a₂ : emit_answers) (reply₁ reply₂ : response) (method : String) (wire₁ wire₂ : json),
      reply₁.id = reply₂.id → reply₁.result.isSome = reply₂.result.isSome →
      a₁.frame_fits reply₁.to_json = false → a₂.frame_fits reply₂.to_json = false →
      (emit a₁ reply₁ method).1 = some wire₁ → (emit a₂ reply₂ method).1 = some wire₂ →
      wire₁ = wire₂ := by
  refine ⟨?_, fun s env req st => invocation_id s env.answers req st, ?_⟩
  · intro s p env₁ env₂ req₁ req₂ h
    exact invocation_alike h ⟨rfl, rfl, rfl⟩
  · intro a₁ a₂ reply₁ reply₂ method wire₁ wire₂ hid hresult hfits₁ hfits₂ h₁ h₂
    rw [emit_replaced hfits₁ h₁, emit_replaced hfits₂ h₂, replacement_alike method hid hresult]

/-- A hook that returns an error rejects what it is asked about, and what it is not asked
about is rejected before. -/
theorem rejected_by_hook {env : application_answers} {operation : String} {n : Nat}
    {text : List UInt8}
    {hook : Nat → String → List UInt8 → call_outcome (Except handler_error (List UInt8))}
    {err : handler_error} (hset : env.filter_output = some hook)
    (h : hook n operation text = .returned (.error err)) : rejected env operation n text := by
  unfold rejected server_policy.filter
  rw [hset]
  dsimp only [Option.map_some]
  rw [h]
  split <;> rfl

/-- A hook that refuses everything. -/
def refusing : raising_answers Bool where
  allow_tool := none
  now := .returned 0
  evaluate := fun _ _ => .nothing
  tool := fun _ _ => .returned (.ok ⟨bytes_of "secret"⟩)
  prompt := fun _ _ => .threw true
  resource := fun _ => .returned (.error ⟨bytes_of "secret"⟩)
  filter_output := some fun _ _ _ => .returned (.error ⟨bytes_of "secret"⟩)

/-- The same with other secrets. -/
def refusing_too : raising_answers Bool where
  allow_tool := none
  now := .returned 0
  evaluate := fun _ _ => .nothing
  tool := fun _ _ => .returned (.ok ⟨bytes_of "hidden"⟩)
  prompt := fun _ _ => .threw false
  resource := fun _ => .returned (.error ⟨bytes_of "hidden"⟩)
  filter_output := some fun _ _ _ => .returned (.error ⟨bytes_of "hidden"⟩)

theorem refusing_alike :
    executions_alike refusing.answers refusing_too.answers echo_call echo_call where
  id := rfl
  method := rfl
  params := .inl rfl
  allow_tool := rfl
  now := rfl
  evaluate := rfl
  tool _ _ := .returned (.ok (.inr ⟨rejected_by_hook rfl rfl, rejected_by_hook rfl rfl⟩))
  prompt _ _ := .threw
  resource _ := .returned (.error _ _)
  filter_output := .set fun _ _ _ => .returned (.error _ _)

/-- A transport that takes nothing but rejections. -/
def narrow : emit_answers where
  encode_throws := false
  frame_fits wire := decide (frame_texts wire = [rejection_text])
  send := .accepted

/-- A tool's reply with another text than the rejection does not fit. -/
theorem narrow_refuses {text : List UInt8} (h : (utf8 text).getD "" ≠ rejection_text) :
    narrow.frame_fits (tool_reply echo_call text false).to_json = false := by
  change decide (frame_texts _ = [rejection_text]) = false
  rw [frame_texts_tool_reply, decide_eq_false_iff_not, List.singleton_inj]
  exact h

/-- So it is replaced, and the replacement fits: the text of the failure is the rejection, which
is what a narrow transport takes. -/
theorem narrow_emits {text : List UInt8} (h : (utf8 text).getD "" ≠ rejection_text) :
    (emit narrow (tool_reply echo_call text false) "tools/call").1 =
      some (tool_failure echo_call.id).to_json := by
  unfold emit
  rw [narrow_refuses h]
  have hreplaced : replacement (tool_reply echo_call text false) "tools/call" =
      tool_failure echo_call.id := rfl
  have hfits : narrow.frame_fits (tool_failure echo_call.id).to_json = true :=
    decide_eq_true (frame_texts_tool_failure echo_call.id)
  rw [if_neg (by decide), if_neg (by decide), hreplaced]
  dsimp only
  rw [if_pos hfits]

/-- A reply that says neither secret, and two that say one each and are cut to the same
frame. -/
theorem replies_disclose_nothing_refused :
    (invocation one_tool refusing.answers echo_call ⟨.make 1 1, []⟩).2 =
        (invocation one_tool refusing_too.answers echo_call ⟨.make 1 1, []⟩).2 ∧
      (invocation one_tool refusing.answers echo_call ⟨.make 1 1, []⟩).2.id = echo_call.id ∧
      (tool_reply echo_call (bytes_of "secret") false).to_json ≠
        (tool_reply echo_call (bytes_of "hidden") false).to_json ∧
      (emit narrow (tool_reply echo_call (bytes_of "secret") false) "tools/call").1 =
        (emit narrow (tool_reply echo_call (bytes_of "hidden") false) "tools/call").1 := by
  have hsecret : (utf8 (bytes_of "secret")).getD "" ≠ rejection_text := by decide +kernel
  have hhidden : (utf8 (bytes_of "hidden")).getD "" ≠ rejection_text := by decide +kernel
  have hdiffer : [(utf8 (bytes_of "secret")).getD ""] ≠ [(utf8 (bytes_of "hidden")).getD ""] := by
    decide +kernel
  obtain ⟨wire₁, h₁⟩ : ∃ wire, (emit narrow (tool_reply echo_call (bytes_of "secret") false)
    "tools/call").1 = some wire := ⟨_, narrow_emits hsecret⟩
  obtain ⟨wire₂, h₂⟩ : ∃ wire, (emit narrow (tool_reply echo_call (bytes_of "hidden") false)
    "tools/call").1 = some wire := ⟨_, narrow_emits hhidden⟩
  have hsame : wire₁ = wire₂ :=
    (@replies_disclose_nothing Bool).2.2 narrow narrow
      (tool_reply echo_call (bytes_of "secret") false)
      (tool_reply echo_call (bytes_of "hidden") false) "tools/call" _ _ rfl rfl
      (narrow_refuses hsecret) (narrow_refuses hhidden) h₁ h₂
  refine ⟨replies_disclose_nothing.1 one_tool (.make 1 1) refusing refusing_too echo_call
    echo_call refusing_alike,
    replies_disclose_nothing.2.1 one_tool refusing echo_call ⟨.make 1 1, []⟩, ?_, ?_⟩
  · intro heq
    have htexts := congrArg frame_texts heq
    rw [frame_texts_tool_reply, frame_texts_tool_reply] at htexts
    exact hdiffer htexts
  · rw [h₁, h₂, hsame]

end SynapseMcp
