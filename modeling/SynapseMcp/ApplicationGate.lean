/-
Which callbacks a request reaches, and when it is charged.

The conditions are stated by members and registrations, without the order of the
checks: `tool_metered` is what has to hold before the bucket is asked, and
`tool_admitted`, `prompt_admitted` and `resource_admitted` what has to hold for a
handler to run. A computation that runs no handler and leaves the bucket alone is
`quiet`; hooks and the filter are, and so is everything put together from them. Every
request is quiet but for one handler at most, and one call of `consume`.
-/
import SynapseMcp.Application

set_option autoImplicit false

namespace SynapseMcp

/-! ## The conditions

A condition here is a fact about the request, the registries and what the hooks answer, with
nothing in it about the order in which the source looks at them. `tool_metered` comes first and
is everything before the bucket; a token that is granted makes the call charged, and a charged
call whose arguments the schema accepts is admitted. For prompts and resources there is no
bucket. -/

/-- The name and the arguments of a call; without arguments, an empty object. -/
structure named_call (params : Option json) (name : String) (arguments : json) : Prop where
  object : ∃ p, params = some p ∧ p.is_object = true ∧ p.find? "name" = some (.string name) ∧
    (p.find? "arguments" = some arguments ∧ arguments.is_object = true ∨
      p.find? "arguments" = none ∧ arguments = .object [])

/-- Every condition before the bucket is asked, with the reading of the clock. -/
structure tool_metered (s : server) (env : application_answers) (req : request) (name : String)
    (arguments : json) (now : Int64) : Prop where
  method : req.method = "tools/call"
  params : named_call req.params name arguments
  registered : ∃ descriptor, s.tools_.lookup name = some descriptor
  allowed : ∀ allow_tool, env.allow_tool = some allow_tool → allow_tool name = .returned true
  now : env.now = .returned now

/-- Every condition before the schema is asked. -/
structure tool_charged (s : server) (env : application_answers) (p : server_policy)
    (req : request) (name : String) (arguments : json) : Prop where
  metered : ∃ now, tool_metered s env req name arguments now ∧ (p.consume now).2 = true

/-- Every condition for a tool's handler: the call was charged, and its arguments were accepted
by the schema of the tool. -/
structure tool_admitted (s : server) (env : application_answers) (p : server_policy)
    (req : request) (name : String) (arguments : json) : Prop where
  charged : tool_charged s env p req name arguments
  accepted : representable arguments = true ∧ env.evaluate name arguments = .nothing

/-- Every condition for a prompt's handler: a registered name, arguments that are strings and
declared, and every required one among them. -/
structure prompt_admitted (s : server) (req : request) (name : String)
    (values : List (String × String)) : Prop where
  method : req.method = "prompts/get"
  admitted : ∃ arguments descriptor, named_call req.params name arguments ∧
    s.prompts_.lookup name = some descriptor ∧
    arguments.members = values.map (fun value => (value.1, .string value.2)) ∧
    (∀ value ∈ values, ∃ argument ∈ descriptor.arguments, argument.name = value.1) ∧
    ∀ argument ∈ descriptor.arguments, argument.required = true →
      ∃ value ∈ values, value.1 = argument.name

/-- Every condition for a resource's handler: a URI that has the syntax of one and is
registered. -/
structure resource_admitted (s : server) (req : request) (uri : String) : Prop where
  method : req.method = "resources/read"
  params : ∃ p, req.params = some p ∧ p.find? "uri" = some (.string uri)
  valid : valid_uri_text uri = true
  registered : ∃ descriptor, s.resources_.lookup uri = some descriptor

/-! ## The checks decide the conditions

Each check of the source is the condition it stands for, in both directions. The functions are
read here once, and the rest of the file speaks of the conditions.

In the direction from the check to the condition a proof splits the check's branches, of which
one succeeds. In the other it evaluates the check at what the condition provides. -/

/-- The parameters of a call name it, and give an object of arguments or none at all. -/
theorem named_params_iff {params : Option json} {name : String} {arguments : json} :
    named_params params = some (name, arguments) ↔ named_call params name arguments := by
  constructor
  · intro h
    unfold named_params at h
    -- the splits follow the checks: an object, a string as name, then the arguments
    split at h
    · rename_i members
      split at h
      · rename_i name' hname
        split at h
        · rename_i hnone
          cases h
          exact ⟨_, rfl, rfl, hname, .inr ⟨hnone, rfl⟩⟩
        · rename_i arguments' hsome
          cases h
          exact ⟨_, rfl, rfl, hname, .inl ⟨hsome, rfl⟩⟩
        · cases h
      · cases h
    · cases h
  · rintro ⟨p, rfl, hobject, hname, harguments⟩
    cases p with
    | object members =>
        change members.lookup "name" = some (.string name) at hname
        unfold named_params
        dsimp only
        rw [hname]
        -- arguments that are an object, or no member of that name, read as the empty object
        rcases harguments with ⟨hsome, hargs⟩ | ⟨hnone, rfl⟩
        · change members.lookup "arguments" = some arguments at hsome
          cases arguments with
          | object _ =>
              dsimp only
              rw [hsome]
          | _ => cases hargs
        · change members.lookup "arguments" = none at hnone
          dsimp only
          rw [hnone]
    | _ => cases hobject

/-- The parameters of a read have a URI, and its text has the syntax of one. -/
theorem read_params_iff {params : Option json} {uri : String} :
    read_params params = some uri ↔
      (∃ p, params = some p ∧ p.find? "uri" = some (.string uri)) ∧ valid_uri_text uri = true := by
  constructor
  · intro h
    unfold read_params at h
    split at h
    · rename_i members
      split at h
      · rename_i uri' huri
        split at h
        · rename_i hvalid
          cases h
          exact ⟨⟨_, rfl, huri⟩, hvalid⟩
        · cases h
      · cases h
    · cases h
  · rintro ⟨⟨p, rfl, huri⟩, hvalid⟩
    cases p with
    | object members =>
        change members.lookup "uri" = some (.string uri) at huri
        unfold read_params
        dsimp only
        rw [huri]
        exact if_pos hvalid
    | _ => cases huri

/-- The schema accepts: the arguments can be represented, and their evaluation finds nothing. -/
theorem validate_iff {evaluator : json → evaluation} {value : json} :
    validate evaluator value = .ok () ↔
      representable value = true ∧ evaluator value = .nothing := by
  unfold validate
  cases representable value with
  | false =>
      constructor
      · intro h
        cases h
      · rintro ⟨h, -⟩
        cases h
  | true =>
      cases evaluator value with
      | nothing => exact ⟨fun _ => ⟨rfl, rfl⟩, fun _ => rfl⟩
      | message | threw =>
          constructor
          · intro h
            cases h
          · rintro ⟨-, h⟩
            cases h

/-- The arguments of a prompt are strings, and each is declared; the values come in their order.
-/
theorem prompt_values_iff {declared : List prompt_argument} {members : List (String × json)}
    {values : List (String × String)} :
    prompt_values declared members = some values ↔
      members = values.map (fun value => (value.1, .string value.2)) ∧
        ∀ value ∈ values, ∃ argument ∈ declared, argument.name = value.1 := by
  -- by induction on the members, which the conversion reads in their order
  induction members generalizing values with
  | nil =>
      rw [prompt_values]
      cases values with
      | nil => simp
      | cons value rest => simp
  | cons member members ih =>
      obtain ⟨key, value⟩ := member
      constructor
      · intro h
        cases value with
        | string text =>
            rw [prompt_values] at h
            split at h
            · rename_i hdeclared
              obtain ⟨rest, hrest, rfl⟩ := Option.map_eq_some_iff.mp h
              obtain ⟨hmembers, hall⟩ := ih.mp hrest
              refine ⟨by rw [hmembers]; rfl, ?_⟩
              rw [List.forall_mem_cons]
              refine ⟨?_, hall⟩
              simpa using hdeclared
            · cases h
        -- a value that is no string is refused
        | _ => cases h
      · rintro ⟨hmembers, hall⟩
        cases values with
        | nil => cases hmembers
        | cons value' rest =>
            rw [List.map_cons, List.cons.injEq, Prod.mk.injEq] at hmembers
            obtain ⟨⟨hkey, hvalue⟩, hrest⟩ := hmembers
            rw [List.forall_mem_cons] at hall
            subst hkey hvalue
            rw [prompt_values, if_pos (by simpa using hall.1), ih.mpr ⟨hrest, hall.2⟩]
            rfl

/-- Every required argument of the prompt has a value: the second loop of the call of a prompt,
over the declared arguments, said with quantifiers. -/
theorem required_present_iff {declared : List prompt_argument} {values : List (String × String)} :
    required_present declared values = true ↔
      ∀ argument ∈ declared, argument.required = true →
        ∃ value ∈ values, value.1 = argument.name := by
  simp only [required_present, List.all_eq_true, Bool.or_eq_true, Bool.not_eq_true',
    List.any_eq_true, decide_eq_true_eq]
  constructor
  · intro h argument hmem hrequired
    rcases h argument hmem with hnot | hpresent
    · rw [hrequired] at hnot
      cases hnot
    · exact hpresent
  · intro h argument hmem
    cases hrequired : argument.required with
    | false => exact .inl rfl
    | true => exact .inr (h argument hmem hrequired)

/-! ## Quiet computations

A request is a computation over the bucket and the log of callbacks, put together with binds
whose parts may throw. What a part does to the handlers and to the bucket is composed by rules:
`quiet` parts do nothing to either, and a computation with one handler in it `runs` that one.
Where a part throws, what was done before it stays done. -/

/-- The callbacks that ran a handler. -/
def handlers (calls : List application_call) : List application_call :=
  calls.filter application_call.is_handler

/-- No handler runs and the bucket is left alone, however the computation ends. -/
def app.quiet {α : Type} (x : app α) : Prop :=
  ∀ st, (x st).1.policy_ = st.policy_ ∧ handlers (x st).1.calls = handlers st.calls

/-- One handler runs, and the bucket is left alone. -/
def app.runs {α : Type} (x : app α) (made : application_call) : Prop :=
  ∀ st, (x st).1.policy_ = st.policy_ ∧ handlers (x st).1.calls = handlers st.calls ++ [made]

section Quiet

variable {α β : Type} {x : app α} {f : α → app β} {made : application_call}
variable {env : application_answers}

/-! ### Rules

`bind` runs the first part and, where it returned, the second; a part that throws ends the
whole. The rules say this of the log and of the bucket, so that a long computation is taken
apart at its binds and never evaluated. -/

/-- A bind goes on where the first part returned, from the state it left, and throws where it
threw. -/
theorem app.bind_run (x : app α) (f : α → app β) (st : application_state) :
    (x >>= f) st = (match x st with
      | (st, .returned a) => f a st
      | (st, .threw) => (st, .threw)) := rfl

/-- The first part returned: what follows runs in the state it left. -/
theorem app.bind_returned {st st' : application_state} {a : α} (h : x st = (st', .returned a)) :
    (x >>= f) st = f a st' := by
  rw [app.bind_run, h]

/-- The first part threw, and the state it left is the last. -/
theorem app.bind_threw {st st' : application_state} (h : x st = (st', .threw)) :
    (x >>= f) st = (st', .threw) := by
  rw [app.bind_run, h]

theorem handlers_append (calls calls' : List application_call) :
    handlers (calls ++ calls') = handlers calls ++ handlers calls' := List.filter_append _ _

theorem app.quiet_pure (a : α) : app.quiet (pure a : app α) := fun _ => ⟨rfl, rfl⟩

/-- A quiet continuation adds nothing to what the first part did to the handlers' calls. -/
theorem app.bind_then_quiet (added : List application_call → List application_call)
    (hx : ∀ st, (x st).1.policy_ = st.policy_ ∧
      handlers (x st).1.calls = added (handlers st.calls))
    (hf : ∀ a, (f a).quiet) (st : application_state) :
    ((x >>= f) st).1.policy_ = st.policy_ ∧
      handlers ((x >>= f) st).1.calls = added (handlers st.calls) := by
  obtain ⟨hpolicy, hcalls⟩ := hx st
  rw [app.bind_run]
  cases hrun : x st with
  | mk st' outcome =>
      rw [hrun] at hpolicy hcalls
      cases outcome with
      | threw => exact ⟨hpolicy, hcalls⟩
      | returned a =>
          obtain ⟨hpolicy', hcalls'⟩ := hf a st'
          exact ⟨hpolicy'.trans hpolicy, hcalls'.trans hcalls⟩

/-- Quiet parts make a quiet whole. -/
theorem app.quiet_bind (hx : x.quiet) (hf : ∀ a, (f a).quiet) : (x >>= f).quiet :=
  app.bind_then_quiet id hx hf

/-- One handler, and then nothing but hooks: the whole runs that handler. -/
theorem app.runs_bind (hx : x.runs made) (hf : ∀ a, (f a).quiet) : (x >>= f).runs made :=
  app.bind_then_quiet (· ++ [made]) hx hf

/-- A call of a handler runs it, also when the handler throws. -/
theorem app.runs_call (answer : call_outcome α) (h : made.is_handler = true) :
    (app.call made answer).runs made := by
  intro st
  refine ⟨rfl, (handlers_append st.calls [made]).trans ?_⟩
  rw [handlers, handlers, List.filter_singleton, h]
  rfl

/-- The filter is a hook: it is called, and no handler is. -/
theorem app.quiet_filter (operation : String) (text : List UInt8) :
    (app.filter env operation text).quiet := by
  intro st
  unfold app.filter
  cases env.filter_output with
  | none => exact ⟨rfl, rfl⟩
  | some filter_output =>
      dsimp only
      split
      · refine ⟨rfl, (handlers_append st.calls _).trans ?_⟩
        exact List.append_nil _
      · exact ⟨rfl, rfl⟩

/-- What becomes of a tool's result after the handler returned is quiet. -/
theorem quiet_tool_handled (req : request) (name : String) (arguments : json) :
    (tool_handled env req name arguments).runs (.tool name arguments) := by
  refine app.runs_bind (app.runs_call _ rfl) fun result => ?_
  refine app.quiet_bind (app.quiet_filter _ _) fun filtered => ?_
  cases filtered <;> exact app.quiet_pure _

/-- So is the answer to arguments that the schema rejects. -/
theorem quiet_tool_mismatch (req : request) (kind : validation_failure_kind) :
    (tool_mismatch env req kind).quiet := by
  unfold tool_mismatch
  split
  · exact app.quiet_pure _
  · refine app.quiet_bind (app.quiet_filter _ _) fun text => ?_
    cases text <;> exact app.quiet_pure _

/-- The texts of a prompt's messages are filtered one by one, and the first that is rejected
ends it; by induction on the messages. -/
theorem quiet_prompt_messages (req : request) (messages : List prompt_message) :
    (prompt_messages env req messages).quiet := by
  induction messages with
  | nil => exact app.quiet_pure _
  | cons message rest ih =>
      unfold prompt_messages
      cases message.role.wire with
      | none => exact app.quiet_pure _
      | some role =>
          refine app.quiet_bind (app.quiet_filter _ _) fun text => ?_
          cases text with
          | none => exact app.quiet_pure _
          | some text =>
              refine app.quiet_bind ih fun messages => ?_
              cases messages <;> exact app.quiet_pure _

/-- What becomes of a prompt's result is quiet: the messages and the description are looked at
through the hook, and no handler is called again. -/
theorem quiet_prompt_handled (req : request) (result : prompt_result) :
    (prompt_handled env req result).quiet := by
  refine app.quiet_bind (quiet_prompt_messages req _) fun messages => ?_
  cases messages with
  | none => exact app.quiet_pure _
  | some messages =>
      dsimp only
      cases result.description with
      | none => exact app.quiet_pure _
      | some text =>
          refine app.quiet_bind (app.quiet_filter _ _) fun description => ?_
          cases description <;> exact app.quiet_pure _

end Quiet

/-! ## One request

Each method is followed from its checks to its handler. For a tool the outcome has three stages:
the bucket is not asked, or it refuses, or it grants and then the schema decides. A prompt or a
resource is admitted or not. In every case the request does to the bucket and the handlers what
the conditions say, and nothing more.

For prompts and resources nothing is asked before the parameters and the registry have been
looked at, and nothing after them but the handler. For tools there is an order that matters: the
token is taken before the schema sees the arguments, so a call with bad arguments is charged
too. The schema decides between the handler and a reply that says what is wrong. -/

section Request

variable {s : server} {env : application_answers} {req : request}

/-- `allow_tool` answers, or the call is allowed where there is none; no handler runs, and the
bucket is as it was. -/
theorem app.allow_run (env : application_answers) (name : String) (st : application_state) :
    ∃ st', app.allow env name st = (st', env.allow_tool.elim (.returned true) (· name)) ∧
      st'.policy_ = st.policy_ ∧ handlers st'.calls = handlers st.calls := by
  unfold app.allow
  cases env.allow_tool with
  | none => exact ⟨st, rfl, rfl, rfl⟩
  | some allow_tool =>
      refine ⟨{ st with calls := st.calls ++ [.allow_tool name] }, rfl, rfl, ?_⟩
      exact (handlers_append st.calls _).trans (List.append_nil _)

/-- The bucket is asked with the reading of the clock. -/
theorem app.consume_returned {now : Int64} (h : env.now = .returned now) (st : application_state) :
    ∃ st', app.consume env st = (st', .returned (st.policy_.consume now).2) ∧
      st'.policy_ = (st.policy_.consume now).1 ∧ handlers st'.calls = handlers st.calls := by
  refine ⟨{ policy_ := (st.policy_.consume now).1, calls := st.calls ++ [.now] }, ?_, rfl, ?_⟩
  · have hcall : app.call .now env.now st =
        ({ st with calls := st.calls ++ [.now] }, .returned now) := by
      rw [h]
      rfl
    exact app.bind_returned hcall
  · exact (handlers_append st.calls _).trans (List.append_nil _)

/-- A clock that throws leaves the bucket alone, and no handler has been called: the only thing
that is new in the state is that the clock was read. -/
theorem app.consume_threw (h : ∀ now, env.now ≠ .returned now) (st : application_state) :
    ∃ st', app.consume env st = (st', .threw) ∧
      st'.policy_ = st.policy_ ∧ handlers st'.calls = handlers st.calls := by
  cases hnow : env.now with
  | returned now => exact absurd hnow (h now)
  | threw =>
      refine ⟨{ st with calls := st.calls ++ [.now] }, ?_, rfl, ?_⟩
      · have hcall : app.call .now env.now st =
            ({ st with calls := st.calls ++ [.now] }, .threw) := by
          rw [hnow]
          rfl
        exact app.bind_threw hcall
      · exact (handlers_append st.calls _).trans (List.append_nil _)

/-- After the token was taken, the handler runs when the schema accepts. -/
theorem tool_granted_run (req : request) (name : String) (arguments : json)
    (st : application_state) :
    (tool_granted env req name arguments st).1.policy_ = st.policy_ ∧
      handlers (tool_granted env req name arguments st).1.calls = handlers st.calls ++
        if validate (env.evaluate name) arguments = .ok () then [.tool name arguments] else [] := by
  unfold tool_granted
  cases hvalid : validate (env.evaluate name) arguments with
  | error kind =>
      obtain ⟨hpolicy, hcalls⟩ := @quiet_tool_mismatch env req kind st
      refine ⟨hpolicy, hcalls.trans ?_⟩
      rw [if_neg (by simp), List.append_nil]
  | ok _ =>
      obtain ⟨hpolicy, hcalls⟩ := @quiet_tool_handled env req name arguments st
      refine ⟨hpolicy, hcalls.trans ?_⟩
      rw [if_pos rfl]

/-- Once the parameters name a registered tool, the hook and the clock decide. -/
theorem tool_metered_iff {name : String} {arguments : json} {descriptor : tool}
    (hmethod : req.method = "tools/call")
    (hparams : named_params req.params = some (name, arguments))
    (hlookup : s.tools_.lookup name = some descriptor) {name' : String} {arguments' : json}
    {now : Int64} :
    tool_metered s env req name' arguments' now ↔
      (name' = name ∧ arguments' = arguments) ∧
        env.allow_tool.elim (.returned true) (· name) = .returned true ∧
        env.now = .returned now := by
  constructor
  · intro h
    rw [named_params_iff.mpr h.params] at hparams
    cases hparams
    refine ⟨⟨rfl, rfl⟩, ?_, h.now⟩
    cases hallow : env.allow_tool with
    | none => rfl
    | some allow_tool => exact h.allowed allow_tool hallow
  · rintro ⟨⟨rfl, rfl⟩, hallow, hnow⟩
    refine ⟨hmethod, named_params_iff.mp hparams, ⟨descriptor, hlookup⟩, ?_, hnow⟩
    intro allow_tool hsome
    rw [hsome] at hallow
    exact hallow

/-! ### The three methods

`tools/call`, `prompts/get` and `resources/read`, each from its first check to what it does with
the handler's result. An exit before the handler refutes one condition; the one way through
meets all of them.

Each is one lemma with a case for each exit of the function. An exit is a failed check, so the
conditions of the gate do not all hold, and no handler is in the list of calls. Behind the last
check the handler's call is in the list, once; what comes after it, the hook and the narrowing
of the result, calls no handler, which the lemmas on quiet computations say. -/

/-- A call of a tool asks the bucket once or not at all, and the bucket and the schema
decide whether the handler runs. -/
theorem tools_call_run (hmethod : req.method = "tools/call") (st : application_state) :
    ((∀ name arguments now, ¬tool_metered s env req name arguments now) ∧
        (tools_call s env req st).1.policy_ = st.policy_ ∧
        handlers (tools_call s env req st).1.calls = handlers st.calls) ∨
      ∃ name arguments now, tool_metered s env req name arguments now ∧
        (tools_call s env req st).1.policy_ = (st.policy_.consume now).1 ∧
        handlers (tools_call s env req st).1.calls = handlers st.calls ++
          if (st.policy_.consume now).2 = true ∧
              validate (env.evaluate name) arguments = .ok () then
            [.tool name arguments] else [] := by
  unfold tools_call
  cases hparams : named_params req.params with
  | none =>
      left
      refine ⟨fun name arguments now h => ?_, rfl, rfl⟩
      rw [named_params_iff.mpr h.params] at hparams
      cases hparams
  | some call =>
      obtain ⟨name, arguments⟩ := call
      dsimp only
      cases hlookup : s.tools_.lookup name with
      | none =>
          left
          refine ⟨fun name' arguments' now h => ?_, rfl, rfl⟩
          obtain ⟨descriptor, hdescriptor⟩ := h.registered
          rw [named_params_iff.mpr h.params] at hparams
          cases hparams
          rw [hlookup] at hdescriptor
          cases hdescriptor
      | some descriptor =>
          dsimp only
          obtain ⟨st₁, hallow, hpolicy₁, hcalls₁⟩ := app.allow_run env name st
          cases hallowed : env.allow_tool.elim (.returned true) (· name) with
          | threw =>
              -- the exception of the hook ends the request
              rw [hallowed] at hallow
              left
              rw [app.bind_threw hallow]
              refine ⟨fun name' arguments' now h => ?_, hpolicy₁, hcalls₁⟩
              rw [tool_metered_iff hmethod hparams hlookup, hallowed] at h
              cases h.2.1
          | returned allowed =>
              rw [hallowed] at hallow
              rw [app.bind_returned hallow]
              cases allowed with
              | false =>
                  left
                  refine ⟨fun name' arguments' now h => ?_, hpolicy₁, hcalls₁⟩
                  rw [tool_metered_iff hmethod hparams hlookup, hallowed] at h
                  cases h.2.1
              | true =>
                  rw [Bool.not_true, if_neg Bool.false_ne_true]
                  by_cases hnow : ∃ now, env.now = .returned now
                  · obtain ⟨now, hnow⟩ := hnow
                    obtain ⟨st₂, hconsume, hpolicy₂, hcalls₂⟩ := app.consume_returned hnow st₁
                    rw [hpolicy₁] at hconsume hpolicy₂
                    rw [hcalls₁] at hcalls₂
                    right
                    refine ⟨name, arguments, now, ?_, ?_⟩
                    · exact (tool_metered_iff hmethod hparams hlookup).mpr
                        ⟨⟨rfl, rfl⟩, hallowed, hnow⟩
                    · rw [app.bind_returned hconsume]
                      cases (st.policy_.consume now).2 with
                      | false =>
                          refine ⟨hpolicy₂, hcalls₂.trans ?_⟩
                          rw [if_neg (fun h => Bool.false_ne_true h.1), List.append_nil]
                      | true =>
                          rw [Bool.not_true, if_neg Bool.false_ne_true]
                          obtain ⟨hpolicy₃, hcalls₃⟩ :=
                            @tool_granted_run env req name arguments st₂
                          refine ⟨hpolicy₃.trans hpolicy₂, hcalls₃.trans ?_⟩
                          rw [hcalls₂]
                          simp only [true_and]
                  · obtain ⟨st₂, hconsume, hpolicy₂, hcalls₂⟩ :=
                      app.consume_threw (fun now h => hnow ⟨now, h⟩) st₁
                    left
                    rw [app.bind_threw hconsume]
                    refine ⟨fun name' arguments' now h => ?_, hpolicy₂.trans hpolicy₁,
                      hcalls₂.trans hcalls₁⟩
                    rw [tool_metered_iff hmethod hparams hlookup] at h
                    exact hnow ⟨now, h.2.2⟩

/-- The conditions of a prompt, as the checks compute them. -/
theorem prompt_admitted_iff {name : String} {values : List (String × String)} :
    prompt_admitted s req name values ↔ req.method = "prompts/get" ∧
      ∃ arguments descriptor, named_params req.params = some (name, arguments) ∧
        s.prompts_.lookup name = some descriptor ∧
        prompt_values descriptor.arguments arguments.members = some values ∧
        required_present descriptor.arguments values = true := by
  constructor
  · rintro ⟨hmethod, arguments, descriptor, hcall, hlookup, hmembers, hdeclared, hrequired⟩
    exact ⟨hmethod, arguments, descriptor, named_params_iff.mpr hcall, hlookup,
      prompt_values_iff.mpr ⟨hmembers, hdeclared⟩, required_present_iff.mpr hrequired⟩
  · rintro ⟨hmethod, arguments, descriptor, hcall, hlookup, hvalues, hrequired⟩
    obtain ⟨hmembers, hdeclared⟩ := prompt_values_iff.mp hvalues
    exact ⟨hmethod, arguments, descriptor, named_params_iff.mp hcall, hlookup, hmembers,
      hdeclared, required_present_iff.mp hrequired⟩

/-- A prompt's handler runs with the values of an admitted request, and nothing else does. -/
theorem prompts_get_run (hmethod : req.method = "prompts/get") :
    ((∀ name values, ¬prompt_admitted s req name values) ∧ (prompts_get s env req).quiet) ∨
      ∃ name values, prompt_admitted s req name values ∧
        (prompts_get s env req).runs (.prompt name values) := by
  unfold prompts_get
  simp only [prompt_admitted_iff, hmethod, true_and]
  cases hparams : named_params req.params with
  | none =>
      left
      refine ⟨?_, app.quiet_pure _⟩
      rintro name values ⟨arguments, descriptor, h, -⟩
      cases h
  | some call =>
      obtain ⟨name, arguments⟩ := call
      dsimp only
      -- each `none` and `false` below is one of the refusals, before any handler
      cases hlookup : s.prompts_.lookup name with
      | none =>
          left
          refine ⟨?_, app.quiet_pure _⟩
          rintro name' values ⟨arguments', descriptor, h, h', -⟩
          cases h
          rw [hlookup] at h'
          cases h'
      | some descriptor =>
          dsimp only
          cases hvalues : prompt_values descriptor.arguments arguments.members with
          | none =>
              left
              refine ⟨?_, app.quiet_pure _⟩
              rintro name' values ⟨arguments', descriptor', h, h', h'', -⟩
              cases h
              rw [hlookup] at h'
              cases h'
              rw [hvalues] at h''
              cases h''
          | some values =>
              dsimp only
              cases hrequired : required_present descriptor.arguments values with
              | false =>
                  left
                  refine ⟨?_, app.quiet_pure _⟩
                  rintro name' values' ⟨arguments', descriptor', h, h', h'', h'''⟩
                  cases h
                  rw [hlookup] at h'
                  cases h'
                  rw [hvalues] at h''
                  cases h''
                  rw [hrequired] at h'''
                  cases h'''
              | true =>
                  right
                  refine ⟨name, values, ?_, ?_⟩
                  · exact ⟨arguments, descriptor, rfl, hlookup, hvalues, hrequired⟩
                  · rw [Bool.not_true, if_neg Bool.false_ne_true]
                    -- the handler is called once; what is made of its result calls nothing more
                    refine app.runs_bind (app.runs_call _ rfl) fun result => ?_
                    cases result with
                    | error err => exact app.quiet_pure _
                    | ok result => exact quiet_prompt_handled req result

/-- The conditions of a resource, as the checks compute them. -/
theorem resource_admitted_iff {uri : String} :
    resource_admitted s req uri ↔ req.method = "resources/read" ∧
      read_params req.params = some uri ∧
        ∃ descriptor, s.resources_.lookup uri = some descriptor := by
  rw [read_params_iff]
  constructor
  · rintro ⟨hmethod, hparams, hvalid, hregistered⟩
    exact ⟨hmethod, ⟨hparams, hvalid⟩, hregistered⟩
  · rintro ⟨hmethod, ⟨hparams, hvalid⟩, hregistered⟩
    exact ⟨hmethod, hparams, hvalid, hregistered⟩

/-- A resource's handler runs with the URI of an admitted request, and nothing else does. -/
theorem resources_read_run (hmethod : req.method = "resources/read") :
    ((∀ uri, ¬resource_admitted s req uri) ∧ (resources_read s env req).quiet) ∨
      ∃ uri, resource_admitted s req uri ∧ (resources_read s env req).runs (.resource uri) := by
  unfold resources_read
  simp only [resource_admitted_iff, hmethod, true_and]
  cases hparams : read_params req.params with
  | none =>
      left
      refine ⟨?_, app.quiet_pure _⟩
      rintro uri ⟨h, -⟩
      cases h
  | some uri =>
      dsimp only
      cases hlookup : s.resources_.lookup uri with
      | none =>
          left
          refine ⟨?_, app.quiet_pure _⟩
          rintro uri' ⟨h, descriptor, h'⟩
          cases h
          rw [hlookup] at h'
          cases h'
      | some descriptor =>
          right
          refine ⟨uri, ⟨rfl, descriptor, hlookup⟩, ?_⟩
          refine app.runs_bind (app.runs_call _ rfl) fun result => ?_
          cases result with
          | error err => exact app.quiet_pure _
          | ok result =>
              refine app.quiet_bind (app.quiet_filter _ _) fun text => ?_
              cases text <;> exact app.quiet_pure _

end Request

/-! ## A series of requests

The bucket is what one request leaves to the next. A series is followed by induction with the
bucket between the requests; each request has its own answers of hooks, clock and handlers, so
nothing is assumed about them from one to the next. That a token was taken is read off the
bucket itself, without a log of its calls.

The level of the bucket after a call tells whether a token was taken, since a call that takes
one leaves the bucket at the level `consume` leaves. This allows to say what was charged in
terms of the states before and after. -/

/-- A call of `consume` that returned true left this bucket. -/
def server_policy.spends (p left : server_policy) : Prop := ∃ now, p.consume now = (left, true)

/-- The bucket after a series of requests, each with its own answers. -/
def policy_after (s : server) (p : server_policy)
    (requests : List (application_answers × request)) : server_policy :=
  requests.foldl (fun p served => (application s served.1 served.2 ⟨p, []⟩).1.policy_) p

/-- What the bucket keeps of a reading is enough to tell what it answered. -/
theorem server_policy.consume_last (p : server_policy) (now : Int64) :
    p.consume (p.consume now).1.last_ = p.consume now := by
  obtain ⟨burst, rate, tokens, last, started⟩ := p
  have hlast : ∀ level : ℚ, ∀ reading : Int64,
      (if level < 1 then ((⟨burst, rate, level, reading, true⟩ : server_policy), false)
        else (⟨burst, rate, level - 1, reading, true⟩, true)).1.last_ = reading := by
    intro level reading
    split <;> rfl
  cases started with
  | false =>
      have : (server_policy.consume ⟨burst, rate, tokens, last, false⟩ now).1.last_ = now := by
        unfold server_policy.consume
        simp only [Bool.false_eq_true, if_false, Int64.lt_irrefl]
        exact hlast tokens now
      rw [this]
  | true =>
      by_cases hlater : last < now
      · have : (server_policy.consume ⟨burst, rate, tokens, last, true⟩ now).1.last_ = now := by
          unfold server_policy.consume
          simp only [if_true, if_pos hlater]
          exact hlast _ now
        rw [this]
      · -- a reading that is not later tops nothing up, like the latest one again
        have hsame : ∀ reading : Int64, ¬last < reading →
            server_policy.consume ⟨burst, rate, tokens, last, true⟩ reading =
              if tokens < 1 then (⟨burst, rate, tokens, last, true⟩, false)
              else (⟨burst, rate, tokens - 1, last, true⟩, true) := by
          intro reading hreading
          unfold server_policy.consume
          simp only [if_true, if_neg hreading]
        rw [hsame now hlater, hlast tokens last, hsame last Int64.lt_irrefl]

/-- The bucket tells whether a call took a token: a call made again with the reading that the
bucket has kept leaves the same bucket and answers the same. -/
theorem server_policy.spends_consume (p : server_policy) (now : Int64) :
    p.spends (p.consume now).1 ↔ (p.consume now).2 = true := by
  constructor
  · rintro ⟨now', h⟩
    have hlast := p.consume_last now'
    rw [h] at hlast
    change p.consume (p.consume now).1.last_ = _ at hlast
    rw [p.consume_last] at hlast
    rw [hlast]
  · intro h
    exact ⟨now, Prod.ext rfl h⟩

/-- A call that took a token does not leave the bucket as it was. -/
theorem server_policy.not_spends_self (p : server_policy) : ¬p.spends p := by
  rintro ⟨now, h⟩
  have hlast := p.consume_last now
  rw [h] at hlast
  obtain ⟨burst, rate, tokens, last, started⟩ := p
  change server_policy.consume ⟨burst, rate, tokens, last, started⟩ last = _ at hlast
  have hsame : server_policy.consume ⟨burst, rate, tokens, last, started⟩ last =
      if tokens < 1 then (⟨burst, rate, tokens, last, true⟩, false)
      else (⟨burst, rate, tokens - 1, last, true⟩, true) := by
    unfold server_policy.consume
    cases started <;> simp
  rw [hsame] at hlast
  split at hlast
  · cases congrArg Prod.snd hlast
  · have htokens : tokens - 1 = tokens := congrArg (fun r => r.1.tokens_) hlast
    linarith

section Gate

variable {s : server} {env : application_answers} {req : request}

/-- The handlers that ran are among the callbacks that were called. -/
theorem mem_handlers {calls : List application_call} {made : application_call}
    (h : made.is_handler = true) : made ∈ calls ↔ made ∈ handlers calls := by
  rw [handlers, List.mem_filter, h]
  exact (and_iff_left rfl).symm

/-- The conditions of a tool's handler in the order in which they are met: metered, granted,
accepted. -/
theorem tool_admitted_iff {p : server_policy} {name : String} {arguments : json} :
    tool_admitted s env p req name arguments ↔
      ∃ now, tool_metered s env req name arguments now ∧ (p.consume now).2 = true ∧
        validate (env.evaluate name) arguments = .ok () := by
  constructor
  · rintro ⟨⟨now, hmetered, hgranted⟩, haccepted⟩
    exact ⟨now, hmetered, hgranted, validate_iff.mpr haccepted⟩
  · rintro ⟨now, hmetered, hgranted, haccepted⟩
    exact ⟨⟨now, hmetered, hgranted⟩, validate_iff.mp haccepted⟩

/-- The parameters, the registry and the clock leave one call to be charged. -/
theorem tool_metered_unique {name name' : String} {arguments arguments' : json} {now now' : Int64}
    (h : tool_metered s env req name arguments now)
    (h' : tool_metered s env req name' arguments' now') :
    name' = name ∧ arguments' = arguments ∧ now' = now := by
  have hcall := named_params_iff.mpr h.params
  have hnow := h.now
  rw [named_params_iff.mpr h'.params] at hcall
  rw [h'.now] at hnow
  cases hcall
  cases hnow
  exact ⟨rfl, rfl, rfl⟩

/-- A request is admitted to one prompt, with one list of values. -/
theorem prompt_admitted_unique {name name' : String} {values values' : List (String × String)}
    (h : prompt_admitted s req name values) (h' : prompt_admitted s req name' values') :
    name' = name ∧ values' = values := by
  obtain ⟨-, arguments, descriptor, hcall, hlookup, hvalues, -⟩ := prompt_admitted_iff.mp h
  obtain ⟨-, arguments', descriptor', hcall', hlookup', hvalues', -⟩ := prompt_admitted_iff.mp h'
  rw [hcall] at hcall'
  cases hcall'
  rw [hlookup] at hlookup'
  cases hlookup'
  rw [hvalues] at hvalues'
  cases hvalues'
  exact ⟨rfl, rfl⟩

/-- A request is admitted to one resource. -/
theorem resource_admitted_unique {uri uri' : String} (h : resource_admitted s req uri)
    (h' : resource_admitted s req uri') : uri' = uri := by
  obtain ⟨-, hparams, -⟩ := resource_admitted_iff.mp h
  obtain ⟨-, hparams', -⟩ := resource_admitted_iff.mp h'
  rw [hparams] at hparams'
  cases hparams'
  rfl

/-- `tools/call` goes to its own function, and so do the other two. -/
theorem application_tools_call (h : req.method = "tools/call") :
    application s env req = tools_call s env req := by
  rw [application, if_neg (by rw [h]; decide), if_pos h]

theorem application_prompts_get (h : req.method = "prompts/get") :
    application s env req = prompts_get s env req := by
  rw [application, if_neg (by rw [h]; decide), if_neg (by rw [h]; decide),
    if_neg (by rw [h]; decide), if_pos h]

theorem application_resources_read (h : req.method = "resources/read") :
    application s env req = resources_read s env req := by
  rw [application, if_neg (by rw [h]; decide), if_neg (by rw [h]; decide),
    if_neg (by rw [h]; decide), if_neg (by rw [h]; decide), if_neg (by rw [h]; decide),
    if_neg (by rw [h]; decide), if_pos h]

/-- The lists and the unknown methods reach no callback. -/
theorem application_quiet (htool : req.method ≠ "tools/call") (hprompt : req.method ≠ "prompts/get")
    (hresource : req.method ≠ "resources/read") : (application s env req).quiet := by
  rw [application, if_neg htool, if_neg hprompt, if_neg hresource]
  split_ifs <;> exact app.quiet_pure _

/-! ### At most one handler

The conditions for the three kinds of handlers name three different methods, and each determines
the arguments. So for a request there is one handler at most that may run, and `handled_request`
is what ran, given the request and the bucket before it.

In the source this is the order of the comparisons in `application()`, where one method's branch
returns before the next is looked at. Here it is read off the conditions: two handlers that both
ran would have been admitted by the same request, whose method is one string. -/

/-- The handlers one request ran are those its parameters were admitted to. -/
inductive handled_request (s : server) (env : application_answers) (p : server_policy)
    (req : request) :
    List application_call → Prop
  | tool (name : String) (arguments : json) (h : tool_admitted s env p req name arguments) :
      handled_request s env p req [.tool name arguments]
  | prompt (name : String) (values : List (String × String))
      (h : prompt_admitted s req name values) : handled_request s env p req [.prompt name values]
  | resource (uri : String) (h : resource_admitted s req uri) :
      handled_request s env p req [.resource uri]
  | nothing (htool : ∀ name arguments, ¬tool_admitted s env p req name arguments)
      (hprompt : ∀ name values, ¬prompt_admitted s req name values)
      (hresource : ∀ uri, ¬resource_admitted s req uri) : handled_request s env p req []

section Handled

variable {p : server_policy} {calls : List application_call}

/-- Only a call of a tool is admitted to a tool. -/
theorem tool_admitted.method {name : String} {arguments : json}
    (h : tool_admitted s env p req name arguments) : req.method = "tools/call" := by
  obtain ⟨now, hmetered, -⟩ := tool_admitted_iff.mp h
  exact hmetered.method

/-- A request is admitted to one tool, with one object of arguments. -/
theorem tool_admitted_unique {name name' : String} {arguments arguments' : json}
    (h : tool_admitted s env p req name arguments)
    (h' : tool_admitted s env p req name' arguments') :
    name' = name ∧ arguments' = arguments := by
  obtain ⟨now, hmetered, -⟩ := tool_admitted_iff.mp h
  obtain ⟨now', hmetered', -⟩ := tool_admitted_iff.mp h'
  obtain ⟨hname, harguments, -⟩ := tool_metered_unique hmetered hmetered'
  exact ⟨hname, harguments⟩

/-- One request runs one handler at most. -/
theorem handled_request.length_le (h : handled_request s env p req calls) : calls.length ≤ 1 := by
  cases h <;> simp

/-- A tool's handler ran exactly when the request was admitted to it, with these arguments. -/
theorem handled_request.mem_tool (h : handled_request s env p req calls) (name : String)
    (arguments : json) :
    .tool name arguments ∈ calls ↔ tool_admitted s env p req name arguments := by
  cases h with
  | tool name' arguments' h =>
      constructor
      · intro hmem
        cases List.mem_singleton.mp hmem
        exact h
      · intro h'
        obtain ⟨rfl, rfl⟩ := tool_admitted_unique h h'
        exact List.mem_singleton.mpr rfl
  | prompt name' values h =>
      refine ⟨fun hmem => (by cases List.mem_singleton.mp hmem), fun h' => ?_⟩
      exact absurd (h.method.symm.trans h'.method) (by decide)
  | resource uri h =>
      refine ⟨fun hmem => (by cases List.mem_singleton.mp hmem), fun h' => ?_⟩
      exact absurd (h.method.symm.trans h'.method) (by decide)
  | nothing htool _ _ =>
      exact ⟨fun hmem => absurd hmem List.not_mem_nil, fun h' => absurd h' (htool _ _)⟩

/-- A prompt's handler ran exactly when the request was admitted to it, with these values. -/
theorem handled_request.mem_prompt (h : handled_request s env p req calls) (name : String)
    (values : List (String × String)) :
    .prompt name values ∈ calls ↔ prompt_admitted s req name values := by
  cases h with
  | tool name' arguments h =>
      refine ⟨fun hmem => (by cases List.mem_singleton.mp hmem), fun h' => ?_⟩
      exact absurd (h.method.symm.trans h'.method) (by decide)
  | prompt name' values' h =>
      constructor
      · intro hmem
        cases List.mem_singleton.mp hmem
        exact h
      · intro h'
        obtain ⟨rfl, rfl⟩ := prompt_admitted_unique h h'
        exact List.mem_singleton.mpr rfl
  | resource uri h =>
      refine ⟨fun hmem => (by cases List.mem_singleton.mp hmem), fun h' => ?_⟩
      exact absurd (h.method.symm.trans h'.method) (by decide)
  | nothing _ hprompt _ =>
      exact ⟨fun hmem => absurd hmem List.not_mem_nil, fun h' => absurd h' (hprompt _ _)⟩

/-- A resource's handler ran exactly when the request was admitted to it. -/
theorem handled_request.mem_resource (h : handled_request s env p req calls) (uri : String) :
    .resource uri ∈ calls ↔ resource_admitted s req uri := by
  cases h with
  | tool name' arguments h =>
      refine ⟨fun hmem => (by cases List.mem_singleton.mp hmem), fun h' => ?_⟩
      exact absurd (h.method.symm.trans h'.method) (by decide)
  | prompt name' values h =>
      refine ⟨fun hmem => (by cases List.mem_singleton.mp hmem), fun h' => ?_⟩
      exact absurd (h.method.symm.trans h'.method) (by decide)
  | resource uri' h =>
      constructor
      · intro hmem
        cases List.mem_singleton.mp hmem
        exact h
      · intro h'
        obtain rfl := resource_admitted_unique h h'
        exact List.mem_singleton.mpr rfl
  | nothing _ _ hresource =>
      exact ⟨fun hmem => absurd hmem List.not_mem_nil, fun h' => absurd h' (hresource _)⟩

end Handled

/-- What one request does to the bucket, and which handlers it runs. -/
theorem application_run (s : server) (env : application_answers) (p : server_policy)
    (req : request) :
    let left := (application s env req ⟨p, []⟩).1
    ((∀ name arguments now, ¬tool_metered s env req name arguments now) ∧ left.policy_ = p ∨
      ∃ name arguments now, tool_metered s env req name arguments now ∧
        left.policy_ = (p.consume now).1) ∧
      handled_request s env p req (handlers left.calls) := by
  intro left
  by_cases htool : req.method = "tools/call"
  · have hleft : left = (tools_call s env req ⟨p, []⟩).1 := by
      change (application s env req ⟨p, []⟩).1 = _
      rw [application_tools_call htool]
    -- the three methods exclude each other, so the other two handlers are not admitted
    have hprompt : ∀ name values, ¬prompt_admitted s req name values := by
      intro name values h
      have := htool.symm.trans h.method
      revert this
      decide
    have hresource : ∀ uri, ¬resource_admitted s req uri := by
      intro uri h
      have := htool.symm.trans h.method
      revert this
      decide
    rw [hleft]
    rcases @tools_call_run s env req htool ⟨p, []⟩ with
      ⟨hnone, hpolicy, hcalls⟩ | ⟨name, arguments, now, hmetered, hpolicy, hcalls⟩
    · refine ⟨.inl ⟨hnone, hpolicy⟩, ?_⟩
      rw [hcalls]
      refine .nothing (fun name arguments h => ?_) hprompt hresource
      obtain ⟨now, hmetered, -⟩ := tool_admitted_iff.mp h
      exact hnone name arguments now hmetered
    · refine ⟨.inr ⟨name, arguments, now, hmetered, hpolicy⟩, ?_⟩
      rw [hcalls]
      change handled_request s env p req (if (p.consume now).2 = true ∧ _ then _ else _)
      split
      -- the bucket grants and the arguments pass the schema: the handler runs
      · rename_i hran
        exact .tool name arguments (tool_admitted_iff.mpr ⟨now, hmetered, hran⟩)
      · rename_i hnot
        refine .nothing (fun name' arguments' h => hnot ?_) hprompt hresource
        obtain ⟨now', hmetered', hran⟩ := tool_admitted_iff.mp h
        -- what would admit another call names the same tool, arguments and reading
        obtain ⟨rfl, rfl, rfl⟩ := tool_metered_unique hmetered hmetered'
        exact hran
  -- the other methods never ask the bucket
  · have hmetered : ∀ name arguments now, ¬tool_metered s env req name arguments now :=
      fun _ _ _ h => htool h.method
    have hadmitted : ∀ name arguments, ¬tool_admitted s env p req name arguments := by
      intro name arguments h
      obtain ⟨now, hmetered', -⟩ := tool_admitted_iff.mp h
      exact htool hmetered'.method
    by_cases hprompt : req.method = "prompts/get"
    · have hleft : left = (prompts_get s env req ⟨p, []⟩).1 := by
        change (application s env req ⟨p, []⟩).1 = _
        rw [application_prompts_get hprompt]
      have hresource : ∀ uri, ¬resource_admitted s req uri := by
        intro uri h
        have := hprompt.symm.trans h.method
        revert this
        decide
      rw [hleft]
      rcases @prompts_get_run s env req hprompt with
        ⟨hnone, hquiet⟩ | ⟨name, values, hadmit, hruns⟩
      -- every other method is answered without the application
      · obtain ⟨hpolicy, hcalls⟩ := hquiet ⟨p, []⟩
        refine ⟨.inl ⟨hmetered, hpolicy⟩, ?_⟩
        rw [hcalls]
        exact .nothing hadmitted hnone hresource
      · obtain ⟨hpolicy, hcalls⟩ := hruns ⟨p, []⟩
        refine ⟨.inl ⟨hmetered, hpolicy⟩, ?_⟩
        rw [hcalls]
        exact .prompt name values hadmit
    · have hprompts : ∀ name values, ¬prompt_admitted s req name values :=
        fun _ _ h => hprompt h.method
      by_cases hresource : req.method = "resources/read"
      · have hleft : left = (resources_read s env req ⟨p, []⟩).1 := by
          change (application s env req ⟨p, []⟩).1 = _
          rw [application_resources_read hresource]
        rw [hleft]
        rcases @resources_read_run s env req hresource with
          ⟨hnone, hquiet⟩ | ⟨uri, hadmit, hruns⟩
        · obtain ⟨hpolicy, hcalls⟩ := hquiet ⟨p, []⟩
          refine ⟨.inl ⟨hmetered, hpolicy⟩, ?_⟩
          rw [hcalls]
          exact .nothing hadmitted hprompts hnone
        · obtain ⟨hpolicy, hcalls⟩ := hruns ⟨p, []⟩
          refine ⟨.inl ⟨hmetered, hpolicy⟩, ?_⟩
          rw [hcalls]
          exact .resource uri hadmit
      · obtain ⟨hpolicy, hcalls⟩ :=
          @application_quiet s env req htool hprompt hresource ⟨p, []⟩
        refine ⟨.inl ⟨hmetered, hpolicy⟩, ?_⟩
        change handled_request s env p req (handlers (application s env req ⟨p, []⟩).1.calls)
        rw [hcalls]
        exact .nothing hadmitted hprompts fun _ h => hresource h.method

/-- The request of a series that comes next meets the bucket the ones before it left. At
most one handler runs, and it is the one whose conditions hold, with the arguments they
name. A token is taken when every condition before the schema holds; the bucket is asked
when every condition before it holds, and is otherwise as it was. -/
theorem application_gate (s : server) (p : server_policy)
    (before : List (application_answers × request)) (env : application_answers) (req : request) :
    let p := policy_after s p before
    let left := (application s env req ⟨p, []⟩).1
    (handlers left.calls).length ≤ 1 ∧
      (∀ name arguments, .tool name arguments ∈ left.calls ↔
        tool_admitted s env p req name arguments) ∧
      (∀ name values, .prompt name values ∈ left.calls ↔ prompt_admitted s req name values) ∧
      (∀ uri, .resource uri ∈ left.calls ↔ resource_admitted s req uri) ∧
      (p.spends left.policy_ ↔ ∃ name arguments, tool_charged s env p req name arguments) ∧
      (∀ name arguments now, tool_metered s env req name arguments now →
        left.policy_ = (p.consume now).1) ∧
      ((∀ name arguments now, ¬tool_metered s env req name arguments now) → left.policy_ = p) := by
  intro p left
  obtain ⟨hbucket, hhandled⟩ := application_run s env p req
  refine ⟨hhandled.length_le, fun name arguments => ?_, fun name values => ?_, fun uri => ?_,
    ?_, ?_, ?_⟩
  · rw [mem_handlers rfl]
    exact hhandled.mem_tool name arguments
  · rw [mem_handlers rfl]
    exact hhandled.mem_prompt name values
  · rw [mem_handlers rfl]
    exact hhandled.mem_resource uri
  -- a token is spent: the bucket was asked, and granted
  · rcases hbucket with ⟨hnone, hpolicy⟩ | ⟨name, arguments, now, hmetered, hpolicy⟩
    · change p.spends (application s env req ⟨p, []⟩).1.policy_ ↔ _
      rw [hpolicy]
      refine ⟨fun h => absurd h p.not_spends_self, ?_⟩
      rintro ⟨name, arguments, now, hmetered, -⟩
      exact absurd hmetered (hnone name arguments now)
    · change p.spends (application s env req ⟨p, []⟩).1.policy_ ↔ _
      rw [hpolicy, p.spends_consume]
      constructor
      · intro hgranted
        exact ⟨name, arguments, now, hmetered, hgranted⟩
      · rintro ⟨name', arguments', now', hmetered', hgranted⟩
        obtain ⟨-, -, rfl⟩ := tool_metered_unique hmetered hmetered'
        exact hgranted
  -- the reading the bucket is asked with is the request's own
  · intro name' arguments' now' hmetered'
    rcases hbucket with ⟨hnone, -⟩ | ⟨name, arguments, now, hmetered, hpolicy⟩
    · exact absurd hmetered' (hnone name' arguments' now')
    · obtain ⟨-, -, rfl⟩ := tool_metered_unique hmetered hmetered'
      exact hpolicy
  · intro hnone
    rcases hbucket with ⟨-, hpolicy⟩ | ⟨name, arguments, now, hmetered, -⟩
    · exact hpolicy
    · exact absurd hmetered (hnone name arguments now)

end Gate

/-- A server with one tool, and a call of it. -/
def one_tool : server where
  info_ := {}
  resources_ := []
  prompts_ := []
  tools_ := [("echo", { name := "echo" })]
  state_ := .running
  protocol_ := .ready
  operations := []
  inflight_ := []

def echo_answers : application_answers where
  allow_tool := none
  now := .returned 0
  evaluate := fun _ _ => .nothing
  tool := fun _ _ => .returned (.ok ⟨[]⟩)
  prompt := fun _ _ => .threw
  resource := fun _ => .threw
  filter_output := none

def echo_call : request where
  id := .uint64 1
  method := "tools/call"
  params := some (.object [("name", .string "echo")])

theorem application_gate_echo :
    tool_metered one_tool echo_answers echo_call "echo" (.object []) 0 ∧
      (application one_tool echo_answers echo_call ⟨.make 1 1, []⟩).1.policy_ =
        ((server_policy.make 1 1).consume 0).1 :=
  have hmetered : tool_metered one_tool echo_answers echo_call "echo" (.object []) 0 :=
    { method := rfl
      params := named_params_iff.mp rfl
      registered := ⟨_, rfl⟩
      allowed := fun _ h => (by cases h)
      now := rfl }
  ⟨hmetered, (application_gate one_tool (.make 1 1) [] echo_answers echo_call).2.2.2.2.2.1
    "echo" (.object []) 0 hmetered⟩

end SynapseMcp
