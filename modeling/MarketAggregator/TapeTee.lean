import MarketAggregator.IngestChannel
import MarketAggregator.GuardedRuns
import MarketAggregator.TapeFiles
import MarketAggregator.EventReplay

/-!
# The tape beside the ingest channel

An ingest task hands every message to the tape and then to the channel, in two steps that
other tasks may come between. In a cluster a supervisor starts the tasks and aborts them, and
ends the session of a stream that it releases. That end goes to the channel alone. A run that
releases nothing puts on the tape what the books see, and a replay of it goes through the
same views.
-/

namespace TapeTee

open AggregatorApply Clocks Decimals FakeFeed GuardedRuns IngestChannel MarketEvents OrderBook
  OrderedMaps TapeFiles TrustedReplay VenueBooks VenueStreams

universe u v w

/-- What an ingest task says of its stream. -/
inductive Said where
  | frame (payload : Payload) (source : FrameSource) (now : IngestTime)
  | sessionEnded (now : IngestTime) (ending : SessionEnd)

def Said.message (stream : StreamId) : Said → IngestMessage
  | .frame payload source now => .frame ⟨stream, payload, now, source⟩
  | .sessionEnded now ending => .sessionEnded stream now ending

@[simp] theorem Said.message_stream (stream : StreamId) (said : Said) :
    (said.message stream).stream = stream := by
  cases said <;> rfl

/-- An ingest task, with what it has handed to the tape and not yet to the channel. -/
structure Task where
  stream : StreamId
  underway : Option Said

def Task.message (t : Task) : Option IngestMessage := t.underway.map (Said.message t.stream)

inductive Duty where
  | release (stream : StreamId)
  | acquire (stream : StreamId)
  deriving DecidableEq

/-- The tasks it started, by stream, and what is left of the pass it is in. -/
structure Supervisor where
  running : OrderedMap StreamId Nat StreamId.cmp
  pending : List Duty

/-- A pass: what is no longer owned is released first. -/
def Supervisor.reconcile (s : Supervisor) (owned : OrderedSet StreamId StreamId.cmp) :
    Supervisor :=
  let released := (s.running.entries.map Prod.fst).filter (fun x => x ∉ owned.members)
  { s with pending := released.map .release ++ owned.members.map .acquire }

structure Node where
  tasks : List Task
  supervisor : Option Supervisor
  tape : List IngestMessage
  offered : List IngestMessage
  channel : Channel IngestMessage
  evicted : List IngestMessage
  applied : List IngestMessage

/-- The two ways in which ingest starts. -/
inductive Launch where
  | perStream (streams : List StreamId)
  | clustered

def channelCapacity : Nat := 1024

inductive Act where
  | publish (i : Nat) (said : Said)
  | offer (i : Nat)
  | reconcile (owned : OrderedSet StreamId StreamId.cmp)
  | supervise (now : IngestTime) (spawned : Bool)
  | receive
  | hangUp

namespace Node

def spawnIngest (launch : Launch) : Node where
  tasks := match launch with
    | .perStream streams => streams.map (fun stream => ⟨stream, none⟩)
    | .clustered => []
  supervisor := match launch with
    | .perStream _ => none
    | .clustered => some ⟨.empty, []⟩
  tape := []
  offered := []
  channel := .bounded channelCapacity (by decide)
  evicted := []
  applied := []

def send (s : Node) (message : IngestMessage) : Node :=
  let sent := s.channel.send message
  { s with
    offered := s.offered ++ [message]
    channel := sent.2
    evicted := match sent.1 with
      | .droppedOldest old => s.evicted ++ [old]
      | _ => s.evicted }

/-- The first half of a publication, to the tape. -/
def tee (s : Node) (i : Nat) (said : Said) : Node :=
  match s.tasks[i]? with
  | some ⟨stream, none⟩ =>
    { s with
      tape := s.tape ++ [said.message stream]
      tasks := s.tasks.set i ⟨stream, some said⟩ }
  | _ => s

/-- The second half, to the channel. -/
def offer (s : Node) (i : Nat) : Node :=
  match s.tasks[i]? with
  | some ⟨stream, some said⟩ =>
    { s with tasks := s.tasks.set i ⟨stream, none⟩ }.send (said.message stream)
  | _ => s

/-- One stream of the pass. A task that is aborted is not waited for. -/
def supervise (s : Node) (now : IngestTime) (spawned : Bool) : Node :=
  match s.supervisor with
  | some ⟨running, .release stream :: pending⟩ =>
    { s with supervisor := some ⟨running.remove stream, pending⟩ }.send
      (.sessionEnded stream now .errored)
  | some ⟨running, .acquire stream :: pending⟩ =>
    if (running.find? stream).isSome || !spawned then
      { s with supervisor := some ⟨running, pending⟩ }
    else
      { s with
        tasks := s.tasks ++ [⟨stream, none⟩]
        supervisor := some ⟨running.insert stream s.tasks.length, pending⟩ }
  | _ => s

def reconcile (s : Node) (owned : OrderedSet StreamId StreamId.cmp) : Node :=
  match s.supervisor with
  | some ⟨running, []⟩ => { s with supervisor := some (Supervisor.reconcile ⟨running, []⟩ owned) }
  | _ => s

def receive (s : Node) : Node :=
  let received := s.channel.tryRecv
  { s with channel := received.2, applied := s.applied ++ received.1.toList }

def hangUp (s : Node) : Node := { s with channel := { s.channel with closed := true } }

def step (s : Node) : Act → Node
  | .publish i said => s.tee i said
  | .offer i => s.offer i
  | .reconcile owned => s.reconcile owned
  | .supervise now spawned => s.supervise now spawned
  | .receive => s.receive
  | .hangUp => s.hangUp

end Node

/-- The messages of one stream, in order. -/
def of (x : StreamId) (messages : List IngestMessage) : List IngestMessage :=
  messages.filter (fun m => m.stream = x)

@[simp] theorem of_append (x : StreamId) (messages more : List IngestMessage) :
    of x (messages ++ more) = of x messages ++ of x more := List.filter_append ..

theorem of_cons_own {x : StreamId} {message : IngestMessage} (own : message.stream = x)
    (messages : List IngestMessage) : of x (message :: messages) = message :: of x messages := by
  simp [of, own]

theorem of_cons_other {x : StreamId} {message : IngestMessage} (other : message.stream ≠ x)
    (messages : List IngestMessage) : of x (message :: messages) = of x messages := by
  simp [of, other]

theorem of_snoc_own {x : StreamId} {message : IngestMessage} (own : message.stream = x)
    (messages : List IngestMessage) : of x (messages ++ [message]) = of x messages ++ [message] := by
  rw [of_append, of_cons_own own]
  rfl

theorem of_snoc_other {x : StreamId} {message : IngestMessage} (other : message.stream ≠ x)
    (messages : List IngestMessage) : of x (messages ++ [message]) = of x messages := by
  rw [of_append, of_cons_other other]
  exact List.append_nil _

/-- What the tasks of a stream have handed to the tape and not yet to the channel. -/
def Node.underway (s : Node) (x : StreamId) : List IngestMessage :=
  of x (s.tasks.filterMap Task.message)

/-- The step does not release the stream. -/
def NotReleased (x : StreamId) (s : Node) : Act → Prop
  | .supervise _ _ => ∀ running pending, s.supervisor ≠ some ⟨running, .release x :: pending⟩
  | _ => True

/-- The step is not a second task of the stream that begins to publish inside another's
publication. -/
def Apart (x : StreamId) (s : Node) : Act → Prop
  | .publish i _ => s.tasks[i]? = some ⟨x, none⟩ → s.underway x = []
  | _ => True

def Keeps (x : StreamId) (s : Node) (a : Act) : Prop := NotReleased x s a ∧ Apart x s a

/-- The launch itself gives the stream one task at most. -/
def Launch.Once (x : StreamId) : Launch → Prop
  | .perStream streams => streams.count x ≤ 1
  | .clustered => True

section History

variable {σ : Type u} {ω : Type v} (v : VenueSync σ) (arith : DecimalArith) (ops : WindowOps ω)

def bookView (agg : Aggregator σ ω) (x : StreamId) : Option View :=
  (agg.streams.find? x).map (fun s => viewOf s.book.book)

/-- The views that the book of a stream goes through, one for each message of the stream. -/
def history (agg : Aggregator σ ω) (x : StreamId) : List IngestMessage → List (Option View)
  | [] => []
  | message :: messages =>
    let next := (apply v arith ops agg message).1
    if message.stream = x then bookView next x :: history next x messages
    else history next x messages

end History

section Views

variable {σ : Type u} {ω : Type v} {v : VenueSync σ} {arith : DecimalArith} {ops : WindowOps ω}
  {agg : Aggregator σ ω} {x : StreamId} {messages : List IngestMessage}

/-- The views of one book, message by message. -/
def views (v : VenueSync σ) (arith : DecimalArith) (vb : VenueBook σ) :
    List IngestMessage → List View
  | [] => []
  | message :: messages =>
    let next := (deliver v arith vb message).2
    viewOf next.book :: views v arith next messages

variable {message : IngestMessage}

theorem find?_own (own : message.stream = x) :
    (apply v arith ops agg message).1.streams.find? x =
      (agg.streams.find? x).map (fun s => (applyToStream v arith ops agg.sink s message).1) := by
  rw [apply_find, if_pos own.symm]

theorem find?_other (other : message.stream ≠ x) :
    (apply v arith ops agg message).1.streams.find? x = agg.streams.find? x := by
  rw [apply_find, if_neg (Ne.symm other)]

/-- What other streams say is not seen. -/
theorem history_tracked {s : VenueState σ ω} (found : agg.streams.find? x = some s) :
    history v arith ops agg x messages = (views v arith s.book (of x messages)).map some := by
  induction messages generalizing agg s with
  | nil => rfl
  | cons message messages ih =>
    by_cases own : message.stream = x
    · have next : (apply v arith ops agg message).1.streams.find? x =
          some (applyToStream v arith ops agg.sink s message).1 := by
        rw [find?_own own, found]
        rfl
      rw [history, if_pos own, ih next, of_cons_own own, bookView, next, Option.map_some,
        applyToStream_book]
      rfl
    · rw [history, if_neg own, ih ((find?_other own).trans found), of_cons_other own]

theorem history_untracked (missing : agg.streams.find? x = none) :
    history v arith ops agg x messages = (of x messages).map (fun _ => none) := by
  induction messages generalizing agg with
  | nil => rfl
  | cons message messages ih =>
    by_cases own : message.stream = x
    · have next : (apply v arith ops agg message).1.streams.find? x = none := by
        rw [find?_own own, missing]
        rfl
      rw [history, if_pos own, ih next, of_cons_own own, bookView, next]
      rfl
    · rw [history, if_neg own, ih ((find?_other own).trans missing), of_cons_other own]

theorem views_append (vb : VenueBook σ) (messages more : List IngestMessage) :
    views v arith vb messages <+: views v arith vb (messages ++ more) := by
  induction messages generalizing vb with
  | nil => exact List.nil_prefix
  | cons message messages ih => exact List.cons_prefix_cons.mpr ⟨rfl, ih _⟩

/-- Messages told again show the same views. -/
theorem views_retold (timeless : Timeless v) {vb vc : VenueBook σ} (shape : SameShape vb vc)
    {told : List IngestMessage} (retold : List.Forall₂ Retold messages told) :
    views v arith vb messages = views v arith vc told := by
  induction retold generalizing vb vc with
  | nil => rfl
  | @cons message again messages told first rest ih =>
    have next : SameShape (deliver v arith vb message).2 (deliver v arith vc again).2 :=
      shape.deliver timeless first
    rw [views, views, next.view, ih next]

theorem of_retold {told : List IngestMessage} (retold : List.Forall₂ Retold messages told) :
    List.Forall₂ Retold (of x messages) (of x told) := by
  induction retold with
  | nil => exact .nil
  | @cons message again messages told first rest ih =>
    by_cases own : message.stream = x
    · rw [of_cons_own own, of_cons_own (first.stream.trans own)]
      exact .cons first ih
    · rw [of_cons_other own, of_cons_other (fun h => own (first.stream.symm.trans h))]
      exact ih

/-- Maps filled alike hold alike values, seen through the same projection. -/
theorem find?_filled {A S T B : Type*} (key : A → StreamId) (f : A → S) (g : A → T) (p : S → B)
    (q : T → B) (same : ∀ a, p (f a) = q (g a)) (l : List A)
    (m : OrderedMap StreamId S StreamId.cmp) (n : OrderedMap StreamId T StreamId.cmp)
    (alike : (m.find? x).map p = (n.find? x).map q) :
    (((l.map fun a => (key a, f a)).foldl (fun m e => m.insert e.1 e.2) m).find? x).map p =
      (((l.map fun a => (key a, g a)).foldl (fun m e => m.insert e.1 e.2) n).find? x).map q := by
  induction l generalizing m n with
  | nil => exact alike
  | cons a l ih =>
    apply ih
    rw [OrderedMap.find?_insert, OrderedMap.find?_insert]
    split
    · exact congrArg some (same a)
    · exact alike

/-- The books of two fresh aggregators over the same specs are the same. -/
theorem new_books {ω' : Type w} (specs : List (VenueSpec σ)) (windows : ω) (windows' : ω')
    (now later : IngestTime) (sink sink' : Bool) :
    ((Aggregator.new v specs windows now sink).streams.find? x).map VenueState.book =
      ((Aggregator.new v specs windows' later sink').streams.find? x).map VenueState.book :=
  find?_filled (VenueSpec.stream v)
    (fun spec => VenueState.new v spec.sync spec.symbol spec.maxDepth windows now)
    (fun spec => VenueState.new v spec.sync spec.symbol spec.maxDepth windows' later)
    VenueState.book VenueState.book (fun _ => rfl) specs .empty .empty rfl

/-- Two fresh aggregators go through the same views when the second is told what the first is
told and more. -/
theorem history_retold (timeless : Timeless v) {ω' : Type w} (arith : DecimalArith)
    (ops : WindowOps ω) (ops' : WindowOps ω') (specs : List (VenueSpec σ)) (windows : ω)
    (windows' : ω') (now later : IngestTime) (sink sink' : Bool) {taped told more : List IngestMessage}
    (part : of x messages ++ more = of x taped) (retold : List.Forall₂ Retold taped told) :
    history v arith ops (Aggregator.new v specs windows now sink) x messages <+:
        history v arith ops' (Aggregator.new v specs windows' later sink') x told ∧
      (more = [] →
        history v arith ops (Aggregator.new v specs windows now sink) x messages =
          history v arith ops' (Aggregator.new v specs windows' later sink') x told) := by
  have books := new_books (v := v) (x := x) specs windows windows' now later sink sink'
  have own := of_retold (x := x) retold
  cases found : (Aggregator.new v specs windows now sink).streams.find? x with
  | none =>
    rw [found] at books
    have missing := Option.map_eq_none_iff.mp books.symm
    rw [history_untracked found, history_untracked missing]
    rw [List.map_const', List.map_const', ← own.length_eq, ← part]
    constructor
    · rw [List.length_append, List.replicate_add]
      exact List.prefix_append ..
    · rintro rfl
      rw [List.append_nil]
  | some s =>
    rw [found] at books
    obtain ⟨t, there, same⟩ := Option.map_eq_some_iff.mp books.symm
    have shape : SameShape s.book t.book := by
      rw [same]
      exact ⟨rfl, rfl, rfl, rfl, rfl⟩
    have seen : views v arith s.book (of x taped) = views v arith t.book (of x told) :=
      views_retold timeless shape own
    rw [history_tracked found, history_tracked there, ← seen, ← part]
    constructor
    · exact (views_append ..).map some
    · rintro rfl
      rw [List.append_nil]

end Views

section Steps

variable {x : StreamId} {s : Node} {a : Act}

theorem set_split {l : List Task} {i : Nat} {t : Task} (here : l[i]? = some t) :
    ∃ pre post, l = pre ++ t :: post ∧ ∀ u, l.set i u = pre ++ u :: post := by
  obtain ⟨inside, rfl⟩ := List.getElem?_eq_some_iff.mp here
  refine ⟨l.take i, l.drop (i + 1), ?_, ?_⟩
  · rw [List.getElem_cons_drop, List.take_append_drop]
  · intro u
    rw [List.set_eq_take_append_cons_drop, if_pos inside]

theorem underway_split {pre post : List Task} {t : Task} (tasks : s.tasks = pre ++ t :: post) :
    s.underway x = of x (pre.filterMap Task.message) ++
      (of x t.message.toList ++ of x (post.filterMap Task.message)) := by
  rw [Node.underway, tasks, List.filterMap_append, of_append]
  cases said : t.message with
  | none => simp [said, of]
  | some m =>
    rw [List.filterMap_cons, said]
    exact congrArg _ (of_append x [m] _)

/-- What one step does to a stream: nothing, half a publication, or an end of its session that
goes to the channel alone. -/
inductive Moved (x : StreamId) (s t : Node) (a : Act) : Prop where
  | still (kept : NotReleased x s a) (tape : of x t.tape = of x s.tape)
      (offered : of x t.offered = of x s.offered) (underway : t.underway x = s.underway x)
  | teed (m : IngestMessage) (pre post : List IngestMessage) (kept : NotReleased x s a)
      (begun : Apart x s a → s.underway x = []) (tape : of x t.tape = of x s.tape ++ [m])
      (offered : of x t.offered = of x s.offered) (before : s.underway x = pre ++ post)
      (underway : t.underway x = pre ++ m :: post)
  | sent (m : IngestMessage) (pre post : List IngestMessage) (kept : NotReleased x s a)
      (tape : of x t.tape = of x s.tape) (offered : of x t.offered = of x s.offered ++ [m])
      (before : s.underway x = pre ++ m :: post) (underway : t.underway x = pre ++ post)
  | released (m : IngestMessage) (lost : ¬ NotReleased x s a) (tape : of x t.tape = of x s.tape)
      (offered : of x t.offered = of x s.offered ++ [m])
      (underway : t.underway x = s.underway x)

theorem moved_tee (i : Nat) (said : Said) : Moved x s (s.tee i said) (.publish i said) := by
  rw [Node.tee]
  split
  · rename_i stream here
    obtain ⟨pre, post, tasks, replaced⟩ := set_split here
    have before := underway_split (x := x) tasks
    have after := fun (t : Node) (split : t.tasks = pre ++ ⟨stream, some said⟩ :: post) =>
      underway_split (x := x) split
    by_cases own : stream = x
    · subst own
      refine .teed (said.message stream) _ _ trivial (fun apart => apart here) ?_ rfl before ?_
      · exact of_snoc_own (said.message_stream stream) _
      · rw [after _ (replaced _), Task.message, Option.map_some, Option.toList_some,
          of_cons_own (said.message_stream stream)]
        rfl
    · have other : (said.message stream).stream ≠ x := by rwa [said.message_stream]
      refine .still trivial ?_ rfl ?_
      · exact of_snoc_other other _
      · rw [after _ (replaced _), before, Task.message, Option.map_some, Option.toList_some,
          of_cons_other other]
        rfl
  · exact .still trivial rfl rfl rfl

theorem moved_offer (i : Nat) : Moved x s (s.offer i) (.offer i) := by
  rw [Node.offer]
  split
  · rename_i stream said here
    obtain ⟨pre, post, tasks, replaced⟩ := set_split here
    have before := underway_split (x := x) tasks
    have after := fun (t : Node) (split : t.tasks = pre ++ ⟨stream, none⟩ :: post) =>
      underway_split (x := x) split
    rw [Task.message, Option.map_some, Option.toList_some] at before
    by_cases own : stream = x
    · subst own
      rw [of_cons_own (said.message_stream stream)] at before
      refine .sent (said.message stream) _ _ trivial rfl ?_ before ?_
      · exact of_snoc_own (said.message_stream stream) _
      · exact after _ (replaced _)
    · have other : (said.message stream).stream ≠ x := by rwa [said.message_stream]
      rw [of_cons_other other] at before
      refine .still trivial rfl ?_ ?_
      · exact of_snoc_other other _
      · exact (after _ (replaced _)).trans before.symm
  · exact .still trivial rfl rfl rfl

theorem moved_supervise (now : IngestTime) (spawned : Bool) :
    Moved x s (s.supervise now spawned) (.supervise now spawned) := by
  rw [Node.supervise]
  split
  · rename_i running stream pending duty
    have said : (IngestMessage.sessionEnded stream now .errored).stream = stream := rfl
    by_cases own : stream = x
    · subst own
      refine .released (.sessionEnded stream now .errored) (fun kept => kept _ _ duty) rfl ?_ rfl
      exact of_snoc_own said _
    · refine .still ?_ rfl ?_ rfl
      · intro running' pending' same
        rw [duty] at same
        cases same
        exact own rfl
      · exact of_snoc_other (said.trans_ne own) _
  · rename_i running stream pending duty
    have kept : NotReleased x s (.supervise now spawned) := by
      intro running' pending' same
      rw [duty] at same
      cases same
    split
    · exact .still kept rfl rfl rfl
    · refine .still kept rfl rfl ?_
      rw [Node.underway, Node.underway, List.filterMap_append, of_append]
      exact List.append_nil _
  · rename_i idle _
    exact .still (fun running pending same => idle running x pending same) rfl rfl rfl

/-- Everything a step can do to a stream. -/
theorem step_moved (x : StreamId) (s : Node) (a : Act) : Moved x s (s.step a) a := by
  cases a with
  | publish i said => exact moved_tee i said
  | offer i => exact moved_offer i
  | supervise now spawned => exact moved_supervise now spawned
  | reconcile owned =>
    rw [Node.step, Node.reconcile]
    split <;> exact .still trivial rfl rfl rfl
  | receive => exact .still trivial rfl rfl rfl
  | hangUp => exact .still trivial rfl rfl rfl

/-- What went to the channel without the tape. -/
def Node.excess (s : Node) (x : StreamId) : Nat :=
  (of x s.offered).length + (s.underway x).length - (of x s.tape).length

theorem excess_step (x : StreamId) (s : Node) (a : Act) :
    s.excess x ≤ (s.step a).excess x := by
  rw [Node.excess, Node.excess]
  cases step_moved x s a with
  | still _ tape offered underway => rw [tape, offered, underway]
  | teed m pre post _ _ tape offered before underway =>
    rw [tape, offered, before, underway]
    simp only [List.length_append, List.length_cons, List.length_nil]
    omega
  | sent m pre post _ tape offered before underway =>
    rw [tape, offered, before, underway]
    simp only [List.length_append, List.length_cons, List.length_nil]
    omega
  | released m _ tape offered underway =>
    rw [tape, offered, underway]
    simp only [List.length_append, List.length_cons, List.length_nil]
    omega

/-- Nothing is on the tape that is neither offered nor about to be. -/
def Covered (x : StreamId) (s : Node) : Prop :=
  (of x s.tape).length ≤ (of x s.offered).length + (s.underway x).length

theorem covered_step (covered : Covered x s) (a : Act) : Covered x (s.step a) := by
  rw [Covered] at *
  cases step_moved x s a with
  | still _ tape offered underway => rwa [tape, offered, underway]
  | teed m pre post _ _ tape offered before underway =>
    rw [before] at covered
    rw [tape, offered, underway]
    simp only [List.length_append, List.length_cons, List.length_nil] at *
    omega
  | sent m pre post _ tape offered before underway =>
    rw [before] at covered
    rw [tape, offered, underway]
    simp only [List.length_append, List.length_cons, List.length_nil] at *
    omega
  | released m _ tape offered underway =>
    rw [tape, offered, underway]
    simp only [List.length_append, List.length_cons, List.length_nil] at *
    omega

/-- A release shows in the lengths for good. -/
theorem kept_of_flat (covered : Covered x s) (flat : (s.step a).excess x = s.excess x) :
    NotReleased x s a := by
  rw [Covered] at covered
  rw [Node.excess, Node.excess] at flat
  cases step_moved x s a with
  | still kept => exact kept
  | teed _ _ _ kept => exact kept
  | sent _ _ _ kept => exact kept
  | released m _ tape offered underway =>
    rw [tape, offered, underway] at flat
    simp only [List.length_append, List.length_cons, List.length_nil] at flat
    omega

/-- The tape holds what the channel was offered and the one message about to be. -/
structure Handed (x : StreamId) (s : Node) : Prop where
  same : of x s.tape = of x s.offered ++ s.underway x
  single : (s.underway x).length ≤ 1

theorem handed_step (handed : Handed x s) (keeps : Keeps x s a) : Handed x (s.step a) := by
  obtain ⟨kept, apart⟩ := keeps
  obtain ⟨same, single⟩ := handed
  cases step_moved x s a with
  | still _ tape offered underway =>
    constructor
    · rw [tape, offered, underway, same]
    · rwa [underway]
  | teed m pre post _ begun tape offered before underway =>
    have nothing := begun apart
    rw [before] at nothing
    obtain ⟨rfl, rfl⟩ := List.append_eq_nil_iff.mp nothing
    constructor
    · rw [tape, offered, underway, same, before]
      simp
    · rw [underway]
      exact Nat.le_refl _
  | sent m pre post _ tape offered before underway =>
    rw [before, List.length_append, List.length_cons] at single
    obtain rfl : pre = [] := List.length_eq_zero_iff.mp (by omega)
    obtain rfl : post = [] := List.length_eq_zero_iff.mp (by omega)
    constructor
    · rw [tape, offered, underway, same, before]
      simp
    · rw [underway]
      exact Nat.zero_le _
  | released m lost => exact False.elim (lost kept)

theorem handed_run (start : Handed x s) {acts : List Act} (keeps : Meets Node.step (Keeps x) s acts) :
    Handed x (exec Node.step s acts) :=
  exec_invariant (fun _ _ h ok => handed_step h ok) start keeps

/-- A stream has one task at most, and the supervisor knows of it. -/
structure Lone (x : StreamId) (s : Node) : Prop where
  one : (s.tasks.map Task.stream).count x ≤ 1
  running : ∀ sup, s.supervisor = some sup → x ∈ s.tasks.map Task.stream →
    (sup.running.find? x).isSome = true

theorem set_streams {l : List Task} {i : Nat} {t u : Task} (here : l[i]? = some t)
    (same : u.stream = t.stream) : (l.set i u).map Task.stream = l.map Task.stream := by
  obtain ⟨pre, post, rfl, replaced⟩ := set_split here
  rw [replaced, List.map_append, List.map_append, List.map_cons, List.map_cons, same]

theorem lone_of_streams (lone : Lone x s) {t : Node}
    (tasks : t.tasks.map Task.stream = s.tasks.map Task.stream)
    (supervisor : t.supervisor = s.supervisor) : Lone x t := by
  constructor
  · rw [tasks]
    exact lone.one
  · rw [tasks, supervisor]
    exact lone.running

theorem lone_supervise (lone : Lone x s) {now : IngestTime} {spawned : Bool}
    (kept : NotReleased x s (.supervise now spawned)) : Lone x (s.supervise now spawned) := by
  rw [Node.supervise]
  split
  · rename_i running stream pending duty
    have other : stream ≠ x := fun same => kept running pending (same ▸ duty)
    constructor
    · exact lone.one
    · rintro sup same present
      cases same
      rw [OrderedMap.find?_remove, if_neg (fun h => other (StreamId.cmp_eq.mp h).symm)]
      exact lone.running ⟨running, _⟩ duty present
  · rename_i running stream pending duty
    have known := lone.running _ duty
    split
    · constructor
      · exact lone.one
      · rintro sup same present
        cases same
        exact known present
    · rename_i missing
      rw [Bool.or_eq_true, not_or] at missing
      constructor
      · rw [List.map_append, List.map_singleton, List.count_append, List.count_singleton]
        by_cases own : stream = x
        · subst own
          have none : stream ∉ s.tasks.map Task.stream := fun present =>
            missing.1 (known present)
          rw [List.count_eq_zero.mpr none]
          simp
        · have one := lone.one
          simpa [own] using one
      · rintro sup same present
        cases same
        rw [OrderedMap.find?_insert]
        split
        · rfl
        · rename_i other
          apply known
          rw [List.map_append, List.map_singleton, List.mem_append, List.mem_singleton] at present
          rcases present with there | rfl
          · exact there
          · exact False.elim (other (StreamId.cmp_eq.mpr rfl))
  · exact lone

theorem lone_step (lone : Lone x s) (kept : NotReleased x s a) : Lone x (s.step a) := by
  cases a with
  | publish i said =>
    rw [Node.step, Node.tee]
    split
    · rename_i here
      exact lone_of_streams lone (set_streams here rfl) rfl
    · exact lone
  | offer i =>
    rw [Node.step, Node.offer]
    split
    · rename_i here
      exact lone_of_streams lone (set_streams here rfl) rfl
    · exact lone
  | reconcile owned =>
    rw [Node.step, Node.reconcile]
    split
    · rename_i running idle
      constructor
      · exact lone.one
      · rintro sup same present
        cases same
        exact lone.running ⟨running, []⟩ idle present
    · exact lone
  | supervise now spawned => exact lone_supervise lone kept
  | receive => exact lone_of_streams lone rfl rfl
  | hangUp => exact lone_of_streams lone rfl rfl

theorem of_foreign {l : List Task} (foreign : x ∉ l.map Task.stream) :
    of x (l.filterMap Task.message) = [] := by
  apply List.filter_eq_nil_iff.mpr
  intro m mem
  obtain ⟨t, there, said⟩ := List.mem_filterMap.mp mem
  obtain ⟨said, _, rfl⟩ := Option.map_eq_some_iff.mp said
  simp only [Said.message_stream, decide_eq_true_eq]
  rintro rfl
  exact foreign (List.mem_map_of_mem there)

theorem apart_of_lone (lone : Lone x s) : Apart x s a := by
  cases a with
  | publish i said =>
    intro here
    obtain ⟨pre, post, tasks, _⟩ := set_split here
    have one := lone.one
    rw [tasks, List.map_append, List.map_cons, List.count_append, List.count_cons_self] at one
    have before : x ∉ pre.map Task.stream := List.count_eq_zero.mp (by omega)
    have after : x ∉ post.map Task.stream := List.count_eq_zero.mp (by omega)
    rw [underway_split tasks, of_foreign before, of_foreign after]
    rfl
  | _ => trivial

theorem lone_start {launch : Launch} (once : launch.Once x) : Lone x (.spawnIngest launch) := by
  cases launch with
  | perStream streams =>
    constructor
    · rw [Node.spawnIngest, List.map_map]
      exact (congrArg (List.count x) (List.map_id streams)).trans_le once
    · rintro sup same
      cases same
  | clustered =>
    constructor
    · exact Nat.zero_le _
    · rintro sup _ present
      cases present

/-- With one task a stream, a run keeps the tape exactly when it does not release the stream. -/
theorem meets_keeps {launch : Launch} (once : launch.Once x) {acts : List Act}
    (kept : Meets Node.step (NotReleased x) (.spawnIngest launch) acts) :
    Meets Node.step (Keeps x) (.spawnIngest launch) acts :=
  kept.strengthen (fun _ _ lone ok => lone_step lone ok)
    (fun _ _ lone ok => ⟨ok, apart_of_lone lone⟩) (lone_start once)

/-- Where the messages of a stream are that were offered, while none was evicted. -/
def Delivered (x : StreamId) (s : Node) : Prop :=
  of x s.evicted = [] → of x s.applied ++ of x s.channel.queue <+: of x s.offered ∧
    (s.channel.closed = false → of x s.applied ++ of x s.channel.queue = of x s.offered)

theorem delivered_send (delivered : Delivered x s) (m : IngestMessage) :
    Delivered x (s.send m) := by
  cases closed : s.channel.closed with
  | true =>
    have refused : s.channel.send m = (.closed m, s.channel) := by
      rw [Channel.send, closed]
      rfl
    rw [Node.send, refused]
    intro none
    obtain ⟨part, _⟩ := delivered none
    constructor
    · rw [of_append]
      exact part.trans (List.prefix_append ..)
    · intro opened
      rw [closed] at opened
      cases opened
  | false =>
    rcases Channel.send_queue closed m with ⟨_, outcome, sent⟩ | ⟨old, rest, queue, _, outcome, sent⟩
    · rw [Node.send, outcome, sent]
      intro none
      have all := (delivered none).2 closed
      have next : of x s.applied ++ of x (s.channel.queue ++ [m]) = of x (s.offered ++ [m]) := by
        rw [of_append, of_append, ← List.append_assoc, all]
      exact ⟨next ▸ List.prefix_refl _, fun _ => next⟩
    · rw [Node.send, outcome, sent]
      intro none
      rw [of_append] at none
      obtain ⟨before, gone⟩ := List.append_eq_nil_iff.mp none
      have all := (delivered before).2 closed
      have other : old.stream ≠ x := by
        intro own
        rw [of_cons_own own] at gone
        cases gone
      rw [queue, of_cons_other other] at all
      have next : of x s.applied ++ of x (rest ++ [m]) = of x (s.offered ++ [m]) := by
        rw [of_append, of_append, ← List.append_assoc, all]
      exact ⟨next ▸ List.prefix_refl _, fun _ => next⟩

theorem delivered_receive (delivered : Delivered x s) : Delivered x s.receive := by
  rw [Node.receive, Channel.tryRecv]
  split
  · rename_i empty
    rw [Option.toList_none, List.append_nil]
    exact delivered
  · rename_i m rest queue
    intro none
    have before := delivered none
    have moved : of x (s.applied ++ [m]) ++ of x rest = of x s.applied ++ of x s.channel.queue := by
      rw [queue, ← of_append, ← of_append, List.append_assoc]
      rfl
    rw [Option.toList_some, moved]
    exact before

theorem delivered_step (delivered : Delivered x s) (a : Act) : Delivered x (s.step a) := by
  cases a with
  | publish i said =>
    rw [Node.step, Node.tee]
    split <;> exact delivered
  | offer i =>
    rw [Node.step, Node.offer]
    split
    · exact delivered_send delivered _
    · exact delivered
  | reconcile owned =>
    rw [Node.step, Node.reconcile]
    split <;> exact delivered
  | supervise now spawned =>
    rw [Node.step, Node.supervise]
    split
    · exact delivered_send delivered _
    · split <;> exact delivered
    · exact delivered
  | receive => exact delivered_receive delivered
  | hangUp =>
    intro none
    exact ⟨(delivered none).1, fun opened => Bool.noConfusion opened⟩

theorem delivered_run (start : Delivered x s) (acts : List Act) :
    Delivered x (exec Node.step s acts) :=
  exec_keeps (fun t a (h : Delivered x t) => delivered_step h a) start acts

end Steps

section Tape

variable {J : Type u} {K : Type v} {ω : Type w} (wires : EveryWires J K) (arith : DecimalArith)
  (ops : WindowOps ω) (specs : List (VenueSpec EverySync)) {x : StreamId} {s : Node}

/-- The replay of the tape takes the book of a stream through what the live run has shown. -/
def Rebuilds (x : StreamId) (s : Node) : Prop :=
  ∀ (written : TapeWriter) (start base now later : IngestTime) (fallback : Symbol)
    (windows windows' : ω) (sink sink' : Bool),
    (TapeWriter.new start).writeAll s.tape = .ok written →
    let live := history (everySync wires) arith ops
      (.new (everySync wires) specs windows now sink) x s.applied
    let replay := history (everySync wires) arith ops
      (.new (everySync wires) specs windows' later sink') x (replayed written.out base fallback)
    live <+: replay ∧
      (s.underway x = [] → of x s.channel.queue = [] → s.channel.closed = false → live = replay)

/-- What a tape promises of a stream. -/
structure TapeTells (x : StreamId) (s : Node) : Prop where
  handed : of x s.tape = of x s.offered ++ s.underway x
  rebuilds : of x s.evicted = [] → Rebuilds wires arith ops specs x s

theorem rebuilds_of_handed (handed : of x s.tape = of x s.offered ++ s.underway x)
    (delivered : Delivered x s) (none : of x s.evicted = []) :
    Rebuilds wires arith ops specs x s := by
  intro written start base now later fallback windows windows' sink sink' wrote
  obtain ⟨lines, out, retold⟩ := writeAll_ok wrote
  have all : written.out = lines := out
  obtain ⟨⟨rest, part⟩, caught⟩ := delivered none
  have split : of x s.applied ++ (of x s.channel.queue ++ rest ++ s.underway x) = of x s.tape := by
    rw [handed, ← part, List.append_assoc, List.append_assoc, List.append_assoc]
  have both := history_retold (everySync_timeless wires) arith ops ops specs windows windows' now
    later sink sink' split (all ▸ retold base fallback)
  constructor
  · exact both.1
  · intro settled drained opened
    apply both.2
    have same := caught opened
    rw [← part] at same
    rw [drained, settled, List.self_eq_append_right.mp same]
    rfl

theorem underway_start (launch : Launch) : (Node.spawnIngest launch).underway x = [] := by
  cases launch with
  | clustered => rfl
  | perStream streams =>
    have quiet : (streams.map fun stream => Task.mk stream none).filterMap Task.message = [] := by
      rw [List.filterMap_map]
      exact List.filterMap_eq_nil_iff.mpr fun _ _ => rfl
    exact congrArg (of x) quiet

/-- The tape is what a stream's book sees, in a run that does not release the stream and in which
no two tasks of the stream publish at once. With one task a stream that is exactly a run that
does not release the stream. -/
theorem tape_tells_iff (launch : Launch) (acts : List Act) (x : StreamId) :
    (Meets Node.step (Keeps x) (.spawnIngest launch) acts →
        TapeTells wires arith ops specs x (exec Node.step (.spawnIngest launch) acts)) ∧
      (launch.Once x →
        (TapeTells wires arith ops specs x (exec Node.step (.spawnIngest launch) acts) ↔
          Meets Node.step (NotReleased x) (.spawnIngest launch) acts)) := by
  have tells : Meets Node.step (Keeps x) (.spawnIngest launch) acts →
      TapeTells wires arith ops specs x (exec Node.step (.spawnIngest launch) acts) := by
    intro keeps
    have start : Handed x (.spawnIngest launch) := by
      constructor
      · exact (underway_start launch).symm
      · rw [underway_start]
        exact Nat.zero_le _
    have handed := handed_run start keeps
    have empty : Delivered x (.spawnIngest launch) := fun _ => ⟨List.prefix_refl _, fun _ => rfl⟩
    have delivered := delivered_run empty acts
    constructor
    · exact handed.same
    · exact rebuilds_of_handed wires arith ops specs handed.same delivered
  refine ⟨tells, ?_⟩
  intro once
  constructor
  · intro told
    have nothing : (Node.spawnIngest launch).excess x = 0 := by
      rw [Node.excess, underway_start]
      rfl
    have flat : (exec Node.step (.spawnIngest launch) acts).excess x =
        (Node.spawnIngest launch).excess x := by
      rw [nothing, Node.excess, told.handed, List.length_append]
      exact Nat.sub_self _
    have covered : Covered x (.spawnIngest launch) := Nat.zero_le _
    have steps := meets_of_flat (fun s a => excess_step x s a) flat
    exact steps.strengthen (fun _ a (h : Covered x _) _ => covered_step h a)
      (fun _ _ h ok => kept_of_flat h ok) covered
  · intro kept
    exact tells (meets_keeps once kept)

end Tape

section Conditions

variable (x : StreamId) (s : Node)

instance : ∀ a, Decidable (NotReleased x s a)
  | .supervise _ _ => decidable_of_iff
      (∀ supervisor ∈ s.supervisor, supervisor.pending.head? ≠ some (.release x)) (by
    constructor
    · rintro first running pending present
      exact first _ present rfl
    · rintro never ⟨running, pending⟩ present first
      obtain ⟨rest, rfl⟩ := List.head?_eq_some_iff.mp first
      exact never running rest present)
  | .publish _ _ | .offer _ | .reconcile _ | .receive | .hangUp => .isTrue trivial

instance : ∀ a, Decidable (Apart x s a)
  | .publish i _ => decidable_of_iff (∀ task ∈ s.tasks[i]?, task.stream = x →
      task.underway.isNone = true → (s.underway x).isEmpty = true) (by
    constructor
    · intro all free
      exact List.isEmpty_iff.mp (all _ free rfl rfl)
    · rintro apart ⟨stream, _ | said⟩ here rfl idle
      · exact List.isEmpty_iff.mpr (apart here)
      · cases idle)
  | .offer _ | .reconcile _ | .supervise _ _ | .receive | .hangUp => .isTrue trivial

instance (a : Act) : Decidable (Keeps x s a) := inferInstanceAs (Decidable (_ ∧ _))

end Conditions

section Sample

open EventReplay KrakenChecksums

def btcUsd : StreamId := ⟨.kraken, ⟨"BTC-USD"⟩⟩

def krakenSpecs : List (VenueSpec EverySync) :=
  [⟨.market (.kraken (KrakenFeed.KrakenSync.new "BTC/USD")), ⟨"BTC-USD"⟩, some 10⟩]

def ethUsd : StreamId := ⟨.kraken, ⟨"ETH-USD"⟩⟩

/-- A node takes two streams on, reads of one between the halves of the other's publication, and
gives the other up. -/
def siblingReleased : List Act :=
  [.reconcile (.ofKeys StreamId.cmp [btcUsd, ethUsd]), .supervise ⟨1, 1⟩ true,
    .supervise ⟨1, 1⟩ true, .publish 1 (.frame (.text heartbeatText) .webSocket ⟨2, 2⟩),
    .publish 0 (.frame (.text sampleText) .webSocket ⟨2, 2⟩), .offer 0, .offer 1, .receive,
    .reconcile (.ofKeys StreamId.cmp [btcUsd]), .supervise ⟨3, 3⟩ true,
    .publish 0 (.sessionEnded ⟨4, 4⟩ .closed), .offer 0, .receive]

theorem tape_tells_sibling_released :
    TapeTells historyWires .idle noWindows krakenSpecs btcUsd
        (exec Node.step (.spawnIngest .clustered) siblingReleased) ∧
      (TapeTells historyWires .idle noWindows krakenSpecs btcUsd
          (exec Node.step (.spawnIngest .clustered) siblingReleased) ↔
        Meets Node.step (NotReleased btcUsd) (.spawnIngest .clustered) siblingReleased) := by
  have told := tape_tells_iff historyWires .idle noWindows krakenSpecs .clustered siblingReleased
    btcUsd
  exact ⟨told.1 (by decide +kernel), told.2 trivial⟩

/-- A node takes a stream on, reads one snapshot of it and gives it up. -/
def takenAndReleased : List Act :=
  [.reconcile (.ofKeys StreamId.cmp [btcUsd]), .supervise ⟨1, 1⟩ true,
    .publish 0 (.frame (.text sampleText) .webSocket ⟨2, 2⟩), .offer 0, .receive,
    .reconcile .empty, .supervise ⟨3, 3⟩ true, .receive]

def released : Node := exec Node.step (.spawnIngest .clustered) takenAndReleased

set_option maxRecDepth 4000 in
/-- The books see the end of the session and the tape does not. -/
theorem released_end_not_taped :
    of btcUsd released.evicted = [] ∧
      of btcUsd released.tape ≠ of btcUsd released.offered ++ released.underway btcUsd ∧
      ¬ Rebuilds historyWires .idle noWindows krakenSpecs btcUsd released := by
  refine ⟨rfl, ?_, ?_⟩
  · intro same
    exact absurd (congrArg List.length same) (by decide +kernel)
  · intro rebuilds
    have both := rebuilds _ ⟨1, 1⟩ ⟨5, 5⟩ ⟨0, 0⟩ ⟨4, 4⟩ ⟨"BTC-USD"⟩ () () false false rfl
    exact absurd (both.2 rfl rfl rfl) (by decide +kernel)

end Sample

end TapeTee
