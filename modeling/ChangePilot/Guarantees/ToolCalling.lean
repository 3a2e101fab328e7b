import ChangePilot.Planning.ToolCalling
import ChangePilot.System.Sample

/-!
# Conversations with tools are well formed

Every conversation that is sent to the model answers each message with tool calls at once,
call by call, with the JSON of what the tools returned.  Tools are run for the calls of the
model only, in their order and at most once each, on arguments that their input models accept.
There is one turn more than rounds at most, and a response sums up all of them.

The parts of a round are told by what they do to the record of what was done: they run the
tools for all of some calls (`RanAll`), or for the first ones and then fail (`Ran`).  These
compose along `Effect.ends_bind`.  `Underway` is what holds before a round, `Underway.advance`
carries it through one, and `ends_rounds` is the induction over the rounds that are left, which
ends with `Bounded` however the run comes to its end.
-/

namespace ChangePilot

/-! ## Conversations -/

/-- The call that a message of a tool answers. -/
def ChatMessage.answers : ChatMessage → Option String
  | tool toolCallId _ => some toolCallId
  | _ => none

/-- Every message with tool calls is followed by one message of a tool for each call, in
their order, and then by no more of them. -/
def AnswersCalls (messages : List ChatMessage) : Prop :=
  ∀ earlier content calls later, messages = earlier ++ .assistant content calls :: later →
    ∃ outputs after, later = outputs ++ after ∧
      outputs.map ChatMessage.answers = calls.map (fun call => some call.id) ∧
      ∀ next, after.head? = some next → next.answers = none

/-- How conversations are made: from messages without calls, and by turns with calls and
their answers. -/
inductive Conversation : List ChatMessage → Prop
  | opened {messages : List ChatMessage}
      (hplain : ∀ message ∈ messages, ∃ role content, message = .plain role content) :
      Conversation messages
  | turn {messages : List ChatMessage} (h : Conversation messages) (content : Option String)
      {calls : List FunctionCall} {outputs : List ChatMessage}
      (houtputs : outputs.map ChatMessage.answers = calls.map fun call => some call.id) :
      Conversation (messages ++ .assistant content calls :: outputs)

/-- A conversation that is made so answers its calls. -/
theorem Conversation.answersCalls {messages : List ChatMessage} (h : Conversation messages) :
    AnswersCalls messages := by
  induction h with
  | opened hplain =>
      intro earlier content calls later heq
      obtain ⟨role, text, hmessage⟩ := hplain (.assistant content calls) (by rw [heq]; simp)
      cases hmessage
  | @turn messages h content calls outputs houtputs ih =>
      intro earlier content' calls' later heq
      rcases List.append_eq_append_iff.mp heq with ⟨more, rfl, hmore⟩ | ⟨more, hmessages, hmore⟩
      · cases more with
        | nil =>
            -- it is the last turn
            obtain ⟨hsame, rfl⟩ := List.cons.inj hmore
            obtain ⟨rfl, rfl⟩ := ChatMessage.assistant.inj hsame
            refine ⟨outputs, [], (List.append_nil _).symm, houtputs, fun next hnext => ?_⟩
            cases hnext
        | cons first rest =>
            -- none of the answers is a message with calls
            obtain ⟨_, hrest⟩ := List.cons.inj hmore
            have hmem : ChatMessage.assistant content' calls' ∈ outputs := by
              rw [hrest]
              exact List.mem_append_right _ List.mem_cons_self
            have hnone : none ∈ calls.map fun call => some call.id := by
              rw [← houtputs]
              exact List.mem_map.mpr ⟨_, hmem, rfl⟩
            obtain ⟨call, _, hcall⟩ := List.mem_map.mp hnone
            cases hcall
      · cases more with
        | nil =>
            obtain ⟨hsame, rfl⟩ := List.cons.inj hmore
            obtain ⟨rfl, rfl⟩ := ChatMessage.assistant.inj hsame
            refine ⟨later, [], (List.append_nil _).symm, houtputs, fun next hnext => ?_⟩
            cases hnext
        | cons first rest =>
            obtain ⟨rfl, rfl⟩ := List.cons.inj hmore
            obtain ⟨outputs', after, rfl, hanswers, hnext⟩ := ih earlier content' calls' rest hmessages
            refine ⟨outputs', after ++ .assistant content calls :: outputs, ?_, hanswers, ?_⟩
            · exact List.append_assoc _ _ _
            · intro next hhead
              cases after with
              | nil =>
                  obtain rfl := Option.some.inj hhead
                  rfl
              | cons first rest => exact hnext next hhead

/-! ## What a gateway has done -/

namespace AsyncToolCallingModelGateway

variable {ω : Type} (gateway : AsyncToolCallingModelGateway ω)

/-- The execution is of a registered tool, on arguments that its input model accepts. -/
def Allowed (execution : ToolExecution) : Prop :=
  ∃ tool, gateway.tools.resolve gateway.runtime execution.call.name = .ok tool ∧
    tool.inputModel.modelValidate (execution.call.arguments.map fun (name, value) =>
      (.str name, value)) = .ok execution.validated

/-- A tool was run for the call and returned this. -/
def Returned (executed : List ToolExecution) (call : ChatToolCall)
    (output : List (String × Value)) : Prop :=
  ∃ tool validated outside, gateway.tools.resolve gateway.runtime call.name = .ok tool ∧
    ⟨call, validated⟩ ∈ executed ∧ (tool.execute validated outside).1 = .ok output

/-- A message of a tool holds the JSON of what a tool returned for the call it answers. -/
def Told (executed : List ToolExecution) (message : ChatMessage) : Prop :=
  ∀ id content, message = .tool id content → ∃ call output, call.toolCallId = id ∧
    gateway.Returned executed call output ∧ gateway.dumpJson (.ofFields output) = .ok content

/-- What is left of the state between two turns: tools may have been run, for the first
ones of the calls. -/
structure Ran (calls : List ChatToolCall) (w next : ToolCallingWorld ω) : Prop where
  sent : next.sent = w.sent
  turns : next.turns = w.turns
  executed : ∃ more, next.executed = w.executed ++ more ∧ more.map ToolExecution.call <+: calls ∧
    ∀ execution ∈ more, gateway.Allowed execution

/-- Tools have been run for all of the calls. -/
structure RanAll (calls : List ChatToolCall) (w next : ToolCallingWorld ω) : Prop where
  sent : next.sent = w.sent
  turns : next.turns = w.turns
  executed : ∃ more, next.executed = w.executed ++ more ∧ more.map ToolExecution.call = calls ∧
    ∀ execution ∈ more, gateway.Allowed execution

variable {gateway} {w next after : ToolCallingWorld ω} {calls : List ChatToolCall}

theorem Returned.mono {executed later : List ToolExecution} {call : ChatToolCall}
    {output : List (String × Value)} (h : gateway.Returned executed call output)
    (hmore : executed <+: later) : gateway.Returned later call output := by
  obtain ⟨tool, validated, outside, htool, hmem, houtput⟩ := h
  exact ⟨tool, validated, outside, htool, hmore.subset hmem, houtput⟩

theorem Told.mono {executed later : List ToolExecution} {message : ChatMessage}
    (h : gateway.Told executed message) (hmore : executed <+: later) :
    gateway.Told later message := by
  intro id content heq
  obtain ⟨call, output, hid, hreturned, hdump⟩ := h id content heq
  exact ⟨call, output, hid, hreturned.mono hmore, hdump⟩

theorem RanAll.ran (h : gateway.RanAll calls w next) : gateway.Ran calls w next where
  sent := h.sent
  turns := h.turns
  executed := by
    obtain ⟨more, hmore, rfl, hallowed⟩ := h.executed
    exact ⟨more, hmore, List.prefix_rfl, hallowed⟩

theorem Ran.keeps (h : gateway.Ran calls w next) : w.executed <+: next.executed := by
  obtain ⟨more, hmore, _⟩ := h.executed
  exact ⟨more, hmore.symm⟩

theorem ranAll_nil (hsent : next.sent = w.sent) (hturns : next.turns = w.turns)
    (hexecuted : next.executed = w.executed) : gateway.RanAll [] w next :=
  ⟨hsent, hturns, [], by rw [hexecuted, List.append_nil], rfl, List.forall_mem_nil _⟩

theorem RanAll.trans {calls' : List ChatToolCall} (h : gateway.RanAll calls w next)
    (hnext : gateway.RanAll calls' next after) : gateway.RanAll (calls ++ calls') w after where
  sent := hnext.sent.trans h.sent
  turns := hnext.turns.trans h.turns
  executed := by
    obtain ⟨more, hmore, rfl, hallowed⟩ := h.executed
    obtain ⟨rest, hrest, rfl, hrestAllowed⟩ := hnext.executed
    refine ⟨more ++ rest, by rw [hrest, hmore, List.append_assoc], List.map_append, ?_⟩
    exact fun execution hmem => (List.mem_append.mp hmem).elim (hallowed _) (hrestAllowed _)

theorem RanAll.trans_ran {calls' : List ChatToolCall} (h : gateway.RanAll calls w next)
    (hnext : gateway.Ran calls' next after) : gateway.Ran (calls ++ calls') w after where
  sent := hnext.sent.trans h.sent
  turns := hnext.turns.trans h.turns
  executed := by
    obtain ⟨more, hmore, rfl, hallowed⟩ := h.executed
    obtain ⟨rest, hrest, hfront, hrestAllowed⟩ := hnext.executed
    refine ⟨more ++ rest, by rw [hrest, hmore, List.append_assoc], ?_, ?_⟩
    · rw [List.map_append]
      exact (List.prefix_append_right_inj _).mpr hfront
    · exact fun execution hmem => (List.mem_append.mp hmem).elim (hallowed _) (hrestAllowed _)

theorem Ran.trans_nil (h : gateway.Ran calls w next) (hnext : gateway.Ran [] next after) :
    gateway.Ran calls w after where
  sent := hnext.sent.trans h.sent
  turns := hnext.turns.trans h.turns
  executed := by
    obtain ⟨more, hmore, hfront, hallowed⟩ := h.executed
    obtain ⟨rest, hrest, hnil, _⟩ := hnext.executed
    obtain rfl := List.map_eq_nil_iff.mp (List.prefix_nil.mp hnil)
    exact ⟨more, by rw [hrest, hmore, List.append_nil], hfront, hallowed⟩

theorem Ran.mono {calls' : List ChatToolCall} (h : gateway.Ran calls w next)
    (hfront : calls <+: calls') : gateway.Ran calls' w next where
  sent := h.sent
  turns := h.turns
  executed := by
    obtain ⟨more, hmore, hcalls, hallowed⟩ := h.executed
    exact ⟨more, hmore, hcalls.trans hfront, hallowed⟩

/-! ## The parts of a round -/

variable (gateway) in
/-- The part of a round runs the tools for these calls, or fails on the way. -/
def Runs {α : Type} (calls : List ChatToolCall) (x : Call ω α) : Prop :=
  ∀ w, x.Ends (fun _ => gateway.RanAll calls w) (fun _ => gateway.Ran calls w) w

section

variable {α β : Type}

theorem runs_pure (a : α) : gateway.Runs [] (pure a) := fun _ =>
  (Effect.ends_pure a).mpr (ranAll_nil rfl rfl rfl)

theorem runs_read {f : ToolCallingWorld ω → Except ToolCallingError α} :
    gateway.Runs [] (.read f) := fun _ =>
  Effect.ends_read.mpr ⟨fun _ _ => ranAll_nil rfl rfl rfl, fun _ _ => (ranAll_nil rfl rfl rfl).ran⟩

theorem Runs.bind {x : Call ω β} {f : β → Call ω α} {calls' : List ChatToolCall}
    (hx : gateway.Runs calls x) (hf : ∀ b, gateway.Runs calls' (f b)) :
    gateway.Runs (calls ++ calls') (x >>= f) := fun w =>
  Effect.ends_bind.mpr <| (hx w).mono
    (fun b next h => (hf b next).mono (fun _ _ hnext => h.trans hnext) fun _ _ hnext =>
      h.trans_ran hnext)
    fun _ _ h => h.mono (List.prefix_append _ _)

theorem runs_readClock : gateway.Runs [] gateway.readClock := fun _ =>
  (Effect.ends_of_ok rfl).mpr (ranAll_nil rfl rfl rfl)

theorem runs_latencySince (started : ℚ) : gateway.Runs [] (gateway.latencySince started) :=
  runs_readClock.bind fun _ => runs_pure _

theorem runs_trace (entry : ToolCallTrace) : gateway.Runs [] (trace entry : Call ω Unit) := fun _ =>
  Effect.ends_change.mpr ⟨fun next hnext => by
    obtain rfl := Except.ok.inj hnext
    exact ranAll_nil rfl rfl rfl, fun _ h => by cases h⟩

theorem runs_dumps (value : Value) : gateway.Runs [] (gateway.dumps value) := runs_read

theorem ends_dumps (value : Value) : (gateway.dumps value).Ends
    (fun text next => gateway.RanAll [] w next ∧ gateway.dumpJson value = .ok text)
    (fun _ => gateway.Ran [] w) w := by
  refine Effect.ends_read.mpr ⟨fun text htext => ⟨ranAll_nil rfl rfl rfl, ?_⟩,
    fun _ _ => (ranAll_nil rfl rfl rfl).ran⟩
  cases hdump : gateway.dumpJson value with
  | ok other =>
      rw [hdump] at htext
      exact congrArg Except.ok (Except.ok.inj htext)
  | error e =>
      rw [hdump] at htext
      cases htext

/-- The one tool that is resolved is run at most, on what its model accepts. -/
theorem ends_attempt {tool : ReadOnlyTool ω} {call : ChatToolCall}
    (htool : gateway.tools.resolve gateway.runtime call.name = .ok tool) :
    (attempt tool call).Ends (fun outcome next =>
      gateway.Ran [call] w next ∧ ∀ output, outcome = .ok output →
        gateway.RanAll [call] w next ∧ gateway.Returned next.executed call output)
      (fun _ => gateway.Ran [call] w) w := by
  unfold attempt
  cases hvalidated : tool.inputModel.modelValidate (call.arguments.map fun (name, value) =>
      (.str name, value)) with
  | error text =>
      refine (Effect.ends_of_ok rfl).mpr ⟨?_, fun output h => by cases h⟩
      exact (ranAll_nil rfl rfl rfl).ran.mono List.nil_prefix
  | ok validated =>
      refine (Effect.ends_of_ok rfl).mpr ?_
      have hran : gateway.RanAll [call] w { w with
          outside := (tool.execute validated w.outside).2
          executed := w.executed ++ [⟨call, validated⟩] } :=
        ⟨rfl, rfl, [⟨call, validated⟩], rfl, rfl, List.forall_mem_singleton.mpr ⟨tool, htool, hvalidated⟩⟩
      exact ⟨hran.ran, fun output houtput => ⟨hran, tool, validated, w.outside, htool,
        List.mem_append_right _ List.mem_cons_self, houtput⟩⟩

variable (gateway) in
/-- The part of a round runs no tool and fails. -/
def Fails (x : Call ω α) : Prop :=
  ∀ w, x.Ends (fun _ _ => False) (fun _ => gateway.Ran [] w) w

theorem fails_permanent (message : String) : gateway.Fails (permanent message : Call ω α) := fun _ =>
  (Effect.ends_fail _).mpr (ranAll_nil rfl rfl rfl).ran

theorem Runs.bind_fails {x : Call ω β} {f : β → Call ω α} (hx : gateway.Runs [] x)
    (hf : ∀ b, gateway.Fails (f b)) : gateway.Fails (x >>= f) := fun w =>
  Effect.ends_bind.mpr <| (hx w).mono
    (fun b next h => (hf b next).mono (fun _ _ hnext => hnext) fun _ _ hnext => h.trans_ran hnext)
    fun _ _ h => h

theorem ends_executeTool (roundNumber : ℕ) (call : ChatToolCall) (w : ToolCallingWorld ω) :
    (gateway.executeTool roundNumber call).Ends
      (fun output next => gateway.RanAll [call] w next ∧
        gateway.Returned next.executed call output)
      (fun _ => gateway.Ran [call] w) w := by
  refine Effect.ends_bind.mpr (Effect.ends_read.mpr ⟨fun tool htool => ?_, fun _ _ => ?_⟩)
  case refine_2 => exact (ranAll_nil rfl rfl rfl).ran.mono List.nil_prefix
  refine Effect.ends_bind.mpr ((runs_readClock w).mono (fun started next hclock => ?_)
    fun _ _ h => h.mono List.nil_prefix)
  refine Effect.ends_bind.mpr ((ends_attempt htool).mono (fun outcome after hattempt => ?_)
    fun _ _ h => hclock.trans_ran h)
  obtain ⟨hran, hall⟩ := hattempt
  cases outcome with
  | ok output =>
      obtain ⟨hcall, hreturned⟩ := hall output rfl
      have hclosing {latencyMs : ℕ} {text : String} : gateway.Runs [] (trace {
          round := roundNumber, toolCallId := call.toolCallId, toolName := call.name
          status := "succeeded", latencyMs, arguments := call.arguments
          outputSummary := summary text } : Call ω Unit) := runs_trace _
      -- the record of the call is kept to the end
      refine Effect.ends_bind.mpr ((runs_latencySince started after).mono
        (fun latencyMs timed htimed => ?_) fun _ _ h => hclock.trans_ran (hcall.trans_ran h))
      refine Effect.ends_bind.mpr ((runs_dumps _ timed).mono (fun text dumped hdumped => ?_)
        fun _ _ h => hclock.trans_ran (hcall.trans_ran (htimed.trans_ran h)))
      have hbefore := htimed.trans hdumped
      refine Effect.ends_bind.mpr ((hclosing dumped).mono (fun _ traced htraced => ?_)
        fun _ _ h => hclock.trans_ran (hcall.trans_ran (hbefore.trans_ran h)))
      have hrest := hbefore.trans htraced
      exact (Effect.ends_pure _).mpr
        ⟨hclock.trans (hcall.trans hrest), hreturned.mono hrest.ran.keeps⟩
  | error failure =>
      cases failure with
      | raised error => exact (Effect.ends_fail _).mpr (hclock.trans_ran hran)
      | expected text =>
          have hrest : gateway.Fails (do
              trace {
                round := roundNumber, toolCallId := call.toolCallId, toolName := call.name
                status := "failed", latencyMs := ← gateway.latencySince started
                arguments := call.arguments, outputSummary := summary text }
              permanent s!"read-only tool {gateway.runtime.repr call.name} failed" :
              Call ω (List (String × Value))) :=
            (runs_latencySince started).bind_fails fun _ =>
              (runs_trace _).bind_fails fun _ => fails_permanent _
          exact (hrest after).mono (fun _ _ h => h.elim) fun _ _ h =>
            hclock.trans_ran (hran.trans_nil h)

/-- The tools are run call by call, and the messages get for each an answer with what its
tool returned. -/
theorem ends_executeCalls (roundNumber : ℕ) (calls : List ChatToolCall) :
    ∀ (messages : List ChatMessage) (w : ToolCallingWorld ω),
      (gateway.executeCalls roundNumber calls messages).Ends
        (fun messages' next => gateway.RanAll calls w next ∧ ∃ outputs,
          messages' = messages ++ outputs ∧
          (outputs.map ChatMessage.answers = calls.map fun call => some call.toolCallId) ∧
          ∀ message ∈ outputs, gateway.Told next.executed message)
        (fun _ => gateway.Ran calls w) w := by
  induction calls with
  | nil =>
      intro messages w
      exact (Effect.ends_pure _).mpr
        ⟨ranAll_nil rfl rfl rfl, [], (List.append_nil _).symm, rfl, List.forall_mem_nil _⟩
  | cons call rest ih =>
      intro messages w
      refine Effect.ends_bind.mpr ((ends_executeTool roundNumber call w).mono
        (fun output next htool => ?_) fun _ _ h => h.mono (List.prefix_append [call] rest))
      obtain ⟨htool, hreturned⟩ := htool
      refine Effect.ends_bind.mpr ((ends_dumps _).mono (fun content after hdumps => ?_)
        fun _ _ h => ?_)
      · obtain ⟨hdumps, hcontent⟩ := hdumps
        refine (ih _ after).mono (fun messages' final h => ?_) fun _ _ h => ?_
        · obtain ⟨hrest, outputs, rfl, houtputs, htold⟩ := h
          refine ⟨htool.trans (hdumps.trans hrest), .tool call.toolCallId content :: outputs,
            ?_, ?_, List.forall_mem_cons.mpr ⟨?_, htold⟩⟩
          · rw [List.append_assoc]
            rfl
          · rw [List.map_cons, List.map_cons, houtputs]
            rfl
          · rintro _ _ ⟨⟩
            exact ⟨call, output, rfl, hreturned.mono (hdumps.trans hrest).ran.keeps, hcontent⟩
        · exact htool.trans_ran (hdumps.trans_ran h)
      · exact (htool.trans_ran h).mono (List.prefix_append [call] rest)

theorem ends_functionCalls (calls : List ChatToolCall) : ∀ w : ToolCallingWorld ω,
    (gateway.functionCalls calls).Ends (fun told next => gateway.RanAll [] w next ∧
      (told.map fun call => some call.id) = calls.map fun call => some call.toolCallId)
      (fun _ => gateway.Ran [] w) w := by
  induction calls with
  | nil => exact fun w => (Effect.ends_pure _).mpr ⟨ranAll_nil rfl rfl rfl, rfl⟩
  | cons call rest ih =>
      intro w
      refine Effect.ends_bind.mpr (Effect.ends_bind.mpr ((runs_dumps _ w).mono
        (fun text next hdumps => (Effect.ends_pure _).mpr ?_) fun _ _ h => h))
      refine Effect.ends_bind.mpr ((ih next).mono (fun told after h => ?_) fun _ _ h => ?_)
      · refine (Effect.ends_pure _).mpr ⟨hdumps.trans h.1, ?_⟩
        rw [List.map_cons, List.map_cons, h.2]
      · exact hdumps.trans_ran h

end

/-! ## The rounds -/

/-- What turns have used together. -/
def Totals.of (turns : List AsyncChatTurn) : Totals where
  usage := {
    inputTokens := (turns.map fun turn => turn.usage.inputTokens).sum
    outputTokens := (turns.map fun turn => turn.usage.outputTokens).sum
    totalTokens := (turns.map fun turn => turn.usage.totalTokens).sum }
  latencyMs := (turns.map AsyncChatTurn.latencyMs).sum

theorem Totals.of_concat (turns : List AsyncChatTurn) (turn : AsyncChatTurn) :
    (Totals.of turns).add turn = Totals.of (turns ++ [turn]) := by
  simp only [Totals.of, Totals.add, List.map_append, List.sum_append, List.map_cons, List.map_nil,
    List.sum_singleton]

variable (gateway) in
/-- What holds before a round. -/
structure Underway (roundNumber : ℕ) (messages : List ChatMessage) (totals : Totals)
    (w : ToolCallingWorld ω) : Prop where
  sentBefore : w.sent.length + 1 = roundNumber
  turnsBefore : w.turns.length + 1 = roundNumber
  conversation : Conversation messages
  sent : ∀ conversation ∈ w.sent, Conversation conversation
  told : ∀ message ∈ messages, gateway.Told w.executed message
  toldBefore : ∀ conversation ∈ w.sent, ∀ message ∈ conversation, gateway.Told w.executed message
  totals : totals = Totals.of w.turns
  executed : w.executed.map ToolExecution.call = w.turns.flatMap AsyncChatTurn.toolCalls
  allowed : ∀ execution ∈ w.executed, gateway.Allowed execution

variable (gateway) in
/-- What holds at the end, however it comes. -/
structure Bounded (w : ToolCallingWorld ω) : Prop where
  sentCount : w.sent.length ≤ gateway.maxToolRounds + 1
  turnCount : w.turns.length ≤ w.sent.length
  sent : ∀ conversation ∈ w.sent, AnswersCalls conversation
  told : ∀ conversation ∈ w.sent, ∀ message ∈ conversation, gateway.Told w.executed message
  executed : w.executed.map ToolExecution.call <+: w.turns.flatMap AsyncChatTurn.toolCalls
  allowed : ∀ execution ∈ w.executed, gateway.Allowed execution

variable (gateway) in
/-- The response is the JSON object of the last turn, and adds up what all of them used. -/
def Concludes (response : ModelResponse) (w : ToolCallingWorld ω) : Prop :=
  ∃ earlier last content, w.turns = earlier ++ [last] ∧ last.toolCalls = [] ∧
    last.content = some content ∧ gateway.loadJson content = .ok (.object response.payload) ∧
    response.usage = (Totals.of w.turns).usage ∧ response.latencyMs = (Totals.of w.turns).latencyMs ∧
    response.model = last.model ∧ response.finishReason = last.finishReason

section

variable {roundNumber : ℕ} {messages : List ChatMessage} {totals : Totals}

theorem Underway.bounded (h : gateway.Underway roundNumber messages totals w)
    (hround : roundNumber ≤ gateway.maxToolRounds + 2) : gateway.Bounded w where
  sentCount := by
    have hbefore := h.sentBefore
    omega
  turnCount := by
    have hsent := h.sentBefore
    have hturns := h.turnsBefore
    omega
  sent conversation hmem := (h.sent conversation hmem).answersCalls
  told := h.toldBefore
  executed := h.executed ▸ List.prefix_rfl
  allowed := h.allowed

/-- The state after a turn has come back. -/
def asked (w : ToolCallingWorld ω) (messages : List ChatMessage) (turn : AsyncChatTurn)
    (outside : ω) : ToolCallingWorld ω :=
  { w with outside, sent := w.sent ++ [messages], turns := w.turns ++ [turn] }

/-- What was told before a turn, and is told now. -/
theorem Underway.told_of_sent (h : gateway.Underway roundNumber messages totals w)
    {executed : List ToolExecution} (hmore : w.executed <+: executed) :
    ∀ conversation ∈ w.sent ++ [messages], ∀ message ∈ conversation,
      gateway.Told executed message := by
  intro conversation hmem message hmessage
  rcases List.mem_append.mp hmem with hmem | hmem
  · exact (h.toldBefore conversation hmem message hmessage).mono hmore
  · rw [List.mem_singleton.mp hmem] at hmessage
    exact (h.told message hmessage).mono hmore

/-- Whatever tools are run for a turn, the bounds hold. -/
theorem Underway.bounded_of_ran (h : gateway.Underway roundNumber messages totals w)
    (hround : roundNumber ≤ gateway.maxToolRounds + 1) {turn : AsyncChatTurn} {outside : ω}
    (hran : gateway.Ran turn.toolCalls (asked w messages turn outside) next) :
    gateway.Bounded next := by
  obtain ⟨more, hmore, hfront, hallowed⟩ := hran.executed
  have hsentBefore := h.sentBefore
  have hturnsBefore := h.turnsBefore
  refine ⟨?_, ?_, ?_, hran.sent ▸ h.told_of_sent hran.keeps, ?_, ?_⟩
  · rw [hran.sent, asked, List.length_append, List.length_singleton]
    omega
  · rw [hran.sent, hran.turns, asked, List.length_append, List.length_append,
      List.length_singleton, List.length_singleton]
    omega
  · rw [hran.sent]
    intro conversation hmem
    rcases List.mem_append.mp hmem with hmem | hmem
    · exact (h.sent conversation hmem).answersCalls
    · rw [List.mem_singleton.mp hmem]
      exact h.conversation.answersCalls
  · rw [hmore, hran.turns, asked, List.map_append, h.executed, List.flatMap_append,
      List.flatMap_singleton]
    exact (List.prefix_append_right_inj _).mpr hfront
  · rw [hmore]
    exact fun execution hmem => (List.mem_append.mp hmem).elim (h.allowed _) (hallowed _)

/-- Once the calls of a turn have been answered the next round can begin. -/
theorem Underway.advance (h : gateway.Underway roundNumber messages totals w)
    {turn : AsyncChatTurn} {outside : ω} {calls : List FunctionCall} {outputs : List ChatMessage}
    (hcalls : (calls.map fun call => some call.id) = turn.toolCalls.map fun call =>
      some call.toolCallId)
    (houtputs : outputs.map ChatMessage.answers = turn.toolCalls.map fun call =>
      some call.toolCallId)
    (htold : ∀ message ∈ outputs, gateway.Told next.executed message)
    (hran : gateway.RanAll turn.toolCalls (asked w messages turn outside) next) :
    gateway.Underway (roundNumber + 1) (messages ++ .assistant turn.content calls :: outputs)
      (totals.add turn) next := by
  obtain ⟨more, hmore, hall, hallowed⟩ := hran.executed
  have hbefore : w.executed <+: next.executed := hran.ran.keeps
  -- one more conversation was sent and one more turn received
  refine ⟨?_, ?_, h.conversation.turn turn.content (houtputs.trans hcalls.symm), ?_, ?_,
    hran.sent ▸ h.told_of_sent hbefore, ?_, ?_, ?_⟩
  · rw [hran.sent, asked, List.length_append, List.length_singleton, h.sentBefore]
  · rw [hran.turns, asked, List.length_append, List.length_singleton, h.turnsBefore]
  -- each of those sent was well formed, and this one is
  · rw [hran.sent]
    intro conversation hmem
    rcases List.mem_append.mp hmem with hmem | hmem
    · exact h.sent conversation hmem
    · rw [List.mem_singleton.mp hmem]
      exact h.conversation
  -- the messages of tools are those of before and the new outputs
  · refine List.forall_mem_append.mpr ⟨fun message hmem => (h.told message hmem).mono hbefore,
      List.forall_mem_cons.mpr ⟨?_, htold⟩⟩
    rintro _ _ ⟨⟩
  · rw [hran.turns, h.totals, Totals.of_concat]
    rfl
  -- every execution was asked for by some turn
  · rw [hmore, hran.turns, asked, List.map_append, h.executed, hall, List.flatMap_append,
      List.flatMap_singleton]
  · rw [hmore]
    exact fun execution hmem => (List.mem_append.mp hmem).elim (h.allowed _) (hallowed _)

/-- A turn without calls ends the run, with a response or an error. -/
theorem ends_finish {turn : AsyncChatTurn} {earlier : List AsyncChatTurn}
    (hturns : w.turns = earlier ++ [turn]) (hnone : turn.toolCalls = [])
    (hbounded : gateway.Bounded w) :
    (gateway.finish turn (Totals.of w.turns)).Ends
      (fun response next => gateway.Bounded next ∧ gateway.Concludes response next)
      (fun _ => gateway.Bounded) w := by
  unfold finish
  split
  · exact (Effect.ends_fail _).mpr hbounded
  case h_2 hne =>
    split
    · exact (Effect.ends_fail _).mpr hbounded
    · exact (Effect.ends_fail _).mpr hbounded
    · exact (Effect.ends_fail _).mpr hbounded
    case h_4 payload hload =>
      refine (Effect.ends_pure _).mpr ⟨hbounded, earlier, turn, turn.content.getD "", hturns, hnone,
        ?_, hload, rfl, rfl, rfl, rfl⟩
      cases hsome : turn.content with
      | none =>
          rw [hsome] at hne
          exact absurd rfl hne
      | some text => rfl

/-- A turn comes back or does not; either way the conversation was sent. -/
theorem ends_ask (maxOutputTokens : ℕ) : (gateway.ask messages maxOutputTokens).Ends
    (fun turn next => ∃ outside, next = asked w messages turn outside)
    (fun _ next => ∃ outside, next = { w with outside, sent := w.sent ++ [messages] }) w := by
  cases hcomplete : gateway.complete messages gateway.tools.definitions maxOutputTokens w.outside with
  | mk outcome outside =>
      cases outcome with
      | ok turn =>
          have hask : gateway.ask messages maxOutputTokens w =
              (.ok turn, asked w messages turn outside) := by
            unfold ask
            rw [hcomplete]
            rfl
          exact (Effect.ends_of_ok hask).mpr ⟨outside, rfl⟩
      | error error =>
          have hask : gateway.ask messages maxOutputTokens w =
              (.error error, { w with outside, sent := w.sent ++ [messages] }) := by
            unfold ask
            rw [hcomplete]
          exact (Effect.ends_of_error hask).mpr ⟨outside, rfl⟩

theorem Underway.bounded_of_sent (h : gateway.Underway roundNumber messages totals w)
    (hround : roundNumber ≤ gateway.maxToolRounds + 1) (outside : ω) :
    gateway.Bounded { w with outside, sent := w.sent ++ [messages] } where
  sentCount := by
    have hbefore := h.sentBefore
    rw [List.length_append, List.length_singleton]
    omega
  turnCount := by
    have hsent := h.sentBefore
    have hturns := h.turnsBefore
    show w.turns.length ≤ (w.sent ++ [messages]).length
    rw [List.length_append, List.length_singleton]
    omega
  sent conversation hmem := by
    rcases List.mem_append.mp hmem with hmem | hmem
    · exact (h.sent conversation hmem).answersCalls
    · rw [List.mem_singleton.mp hmem]
      exact h.conversation.answersCalls
  told := h.told_of_sent List.prefix_rfl
  executed := h.executed ▸ List.prefix_rfl
  allowed := h.allowed

/-- From a round on the bounds are kept, and what is answered concludes the turns. -/
theorem ends_rounds (maxOutputTokens : ℕ) : ∀ (left roundNumber : ℕ) (messages : List ChatMessage)
    (totals : Totals) (w : ToolCallingWorld ω), left + roundNumber = gateway.maxToolRounds + 2 →
    gateway.Underway roundNumber messages totals w →
    (gateway.rounds maxOutputTokens left roundNumber messages totals).Ends
      (fun response next => gateway.Bounded next ∧ gateway.Concludes response next)
      (fun _ => gateway.Bounded) w := by
  intro left
  induction left with
  | zero =>
      intro roundNumber messages totals w hround h
      exact (Effect.ends_fail _).mpr (h.bounded (by omega))
  | succ left ih =>
      intro roundNumber messages totals w hround h
      have hthis : roundNumber ≤ gateway.maxToolRounds + 1 := by omega
      refine Effect.ends_bind.mpr ((ends_ask maxOutputTokens).mono (fun turn next hturn => ?_)
        fun _ next hsent => ?_)
      -- the model raised
      case refine_2 =>
        obtain ⟨outside, rfl⟩ := hsent
        exact h.bounded_of_sent hthis outside
      obtain ⟨outside, rfl⟩ := hturn
      have hasked : gateway.Bounded (asked w messages turn outside) :=
        h.bounded_of_ran hthis ((ranAll_nil rfl rfl rfl).ran.mono List.nil_prefix)
      split
      -- a turn without calls ends the conversation
      case isTrue hnone =>
        rw [h.totals, Totals.of_concat]
        exact ends_finish rfl hnone hasked
      split
      -- too many rounds
      · exact (Effect.ends_fail _).mpr hasked
      refine Effect.ends_bind.mpr ((ends_functionCalls turn.toolCalls _).mono
        (fun calls told hcalls => ?_) fun _ _ hran => ?_)
      case refine_2 => exact h.bounded_of_ran hthis (hran.mono List.nil_prefix)
      refine Effect.ends_bind.mpr ((ends_executeCalls roundNumber turn.toolCalls _ told).mono
        (fun answered next houtputs => ?_) fun _ _ hran => ?_)
      case refine_2 => exact h.bounded_of_ran hthis (hcalls.1.trans_ran hran)
      obtain ⟨hran, outputs, rfl, houtputs, htold⟩ := houtputs
      -- the next round, with the outputs appended
      refine ih (roundNumber + 1) _ _ next (by omega) ?_
      rw [List.append_assoc]
      exact h.advance hcalls.2 houtputs htold (hcalls.1.trans hran)

end

end AsyncToolCallingModelGateway

/-- One `generate` sends at most one conversation more than there are rounds, each of which
answers all calls of tools that it holds, with messages that hold the JSON of what the tools
returned.  Tools are run for the calls of the turns, in their order and each at most once, if
they are registered and their input models accept the arguments.  A response holds the JSON
object of the last turn, and what the turns together have used and taken. -/
theorem tool_calling_is_well_formed {ω : Type} (gateway : AsyncToolCallingModelGateway ω)
    (request : ModelRequest) (outside : ω) (traces : List ToolCallTrace) :
    let ended := gateway.generate request { outside, traces }
    ended.2.sent.length ≤ gateway.maxToolRounds + 1 ∧
    (∀ conversation ∈ ended.2.sent, AnswersCalls conversation ∧
      ∀ message ∈ conversation, gateway.Told ended.2.executed message) ∧
    (∀ execution ∈ ended.2.executed, gateway.Allowed execution) ∧
    ended.2.executed.map ToolExecution.call <+: ended.2.turns.flatMap AsyncChatTurn.toolCalls ∧
    ∀ response, ended.1 = .ok response → gateway.Concludes response ended.2 := by
  intro ended
  have hstart : gateway.Underway 1
      (request.messages.map fun message => .plain message.role message.content) {}
      { outside, traces } := by
    refine ⟨rfl, rfl, .opened fun message hmessage => ?_, List.forall_mem_nil _, ?_,
      List.forall_mem_nil _, rfl, rfl, List.forall_mem_nil _⟩
    · obtain ⟨opening, _, rfl⟩ := List.mem_map.mp hmessage
      exact ⟨_, _, rfl⟩
    · intro message hmessage id content htool
      obtain ⟨opening, _, rfl⟩ := List.mem_map.mp hmessage
      cases htool
  have hends := AsyncToolCallingModelGateway.ends_rounds request.maxOutputTokens
    (gateway.maxToolRounds + 1) 1 _ _ _ rfl hstart
  have hbounded : gateway.Bounded ended.2 :=
    (hends.mono (fun _ _ h => h.1) fun _ _ h => h).state
  refine ⟨hbounded.sentCount, fun conversation hmem => ⟨hbounded.sent conversation hmem,
    hbounded.told conversation hmem⟩, hbounded.allowed, hbounded.executed, fun response h => ?_⟩
  exact (hends.1 response ended.2 (Prod.ext h rfl)).2

namespace Sample

/-- A tool that says whether the service is healthy. -/
def statusTool : ReadOnlyTool Unit where
  definition := ⟨"service.status", "The state of the service", []⟩
  inputModel := { modelFields := ["service"], modelValidate := fun fields => .ok (.dict fields) }
  execute _ outside := (.ok [("healthy", .bool true)], outside)

/-- The model asks for the state of the service, and then answers. -/
def statusTurn (messages : List ChatMessage) : AsyncChatTurn :=
  if messages.any fun message => (message.answers).isSome then
    { content := some "answer", usage := ⟨5, 5, 10⟩, model := "model", latencyMs := 2
      finishReason := "stop" }
  else
    { toolCalls := [⟨"first", "service.status", [("service", .str "orders")]⟩]
      usage := ⟨3, 4, 7⟩, model := "model", latencyMs := 1, finishReason := "tool_calls" }

def statusGateway : AsyncToolCallingModelGateway Unit where
  runtime := runtime
  complete messages _ _ outside := (.ok (statusTurn messages), outside)
  tools := { tools := [statusTool], names_nodup := List.nodup_singleton _ }
  dumpJson value := runtime.jsonDumps true value
  loadJson _ := .ok (.object [("summary", .str "healthy")])
  perfCounter outside := (0, outside)

def statusRequest : ModelRequest where
  requestId := "request"
  messages := [⟨.user, "Is the service healthy?"⟩]
  responseSchemaName := "answer"
  responseSchema := []
  promptVersion := "v1"
  knowledgeSnapshotDigest := ""
  maxOutputTokens := 100

end Sample

theorem tool_calling_is_well_formed_status :
    let ended := Sample.statusGateway.generate Sample.statusRequest { outside := () }
    (ended.2.executed.map fun execution => execution.call.toolCallId) = ["first"] ∧
    (∃ conversation ∈ ended.2.sent, AnswersCalls conversation ∧
      ∃ call output, call.toolCallId = "first" ∧
        Sample.statusGateway.Returned ended.2.executed call output ∧
        Sample.statusGateway.dumpJson (.ofFields output) = .ok "\x7b\"healthy\":true\x7d") ∧
    ∃ response, ended.1 = .ok response ∧ Sample.statusGateway.Concludes response ended.2 := by
  intro ended
  obtain ⟨_, hsent, _, _, hresponse⟩ :=
    tool_calling_is_well_formed Sample.statusGateway Sample.statusRequest () []
  -- the second conversation has the answer of the tool
  obtain ⟨conversation, hlast⟩ : ∃ conversation, ended.2.sent.getLast? = some conversation :=
    ⟨_, rfl⟩
  have hmem : conversation ∈ ended.2.sent := List.mem_of_getLast? hlast
  have htool : conversation.getLast? =
      some (.tool "first" "\x7b\"healthy\":true\x7d") := by
    obtain rfl := Option.some.inj hlast
    rfl
  obtain ⟨hanswers, htold⟩ := hsent conversation hmem
  exact ⟨rfl, ⟨conversation, hmem, hanswers, htold _ (List.mem_of_getLast? htool) _ _ rfl⟩,
    _, rfl, hresponse _ rfl⟩

end ChangePilot
