import Barn.Interaction.Channel
import Barn.Rtail.Pipe
import Mathlib.Logic.Function.Basic

/-!
# The network of rtail

Pipes send what they read to the daemon of their machine, daemons forward it to the clients that
subscribed to it, and clients write it to their `stdout`, as in `Network/Rtail.hs`. The sockets keep
messages whole and in order, and may drop one wherever it is sent. `Network.Sound` says what is
where; `shows_lines` is about every run, and `shows_later` about those that drop nothing on the way
from a pipe to a client.
-/

namespace Barn.Rtail

open Interaction

/-- The parts of a message, of which the first is its topic. -/
abbrev Message := List ByteString

/-- `opts` of `rtail`: the arguments with a colon are addresses, the others are topics. -/
def opts (xs : List ByteString) : Option (List ByteString × List ByteString) :=
  match xs with
  | [] => none
  | xs =>
      let (as, ts) := xs.partition fun x => x.elem 0x3A
      if as.isEmpty || ts.isEmpty then none else some (as, ts)

/-- The programs that run, with their arguments: pipes with what `hGetSome` returns to them, and
clients. An address may lead to a daemon. -/
structure Setting (π δ κ : Type) where
  daemon : π → δ
  topic : π → ByteString
  chunks : π → List ByteString
  args : κ → List ByteString
  listens : ByteString → Option δ

/-- The state of all programs and of the sockets between them. The messages that a daemon has
forwarded and that a client has received remain in the state. A message is kept together with the
pipe it comes from. -/
structure Network (π δ κ : Type) where
  remaining : π → List Action
  piped : π → ByteString
  uplink : π → Channel Message
  holding : δ → Option (π × Message)
  forwarded : δ → List (π × Message)
  downlink : κ × ℕ → Channel (π × Message)
  received : κ → List (ℕ × π × Message)
  writing : κ → List ByteString
  output : κ → ByteString

/-- What can happen next: a pipe performs its next action, a daemon receives a message of a pipe or
sends on the one it has, a client receives a message over one of its connections or writes the next
piece of the one it has. `kept` says whether a socket keeps what is sent. -/
inductive Label (π δ κ : Type) where
  | perform (pipe : π) (kept : Bool)
  | take (pipe : π)
  | forward (daemon : δ) (kept : κ × ℕ → Bool)
  | receive (client : κ) (connection : ℕ)
  | write (client : κ)

/-- The messages among the actions of a pipe. -/
def messages : List Action → List Message
  | [] => []
  | .sendMulti parts :: actions => parts :: messages actions
  | .hPut _ :: actions => messages actions

/-- The part of a message that subscriptions are about. -/
def firstPart (message : Message) : ByteString :=
  message.headD []

/-- What `runClient` writes of a message, piece by piece. -/
def pieces (message : Message) : List ByteString :=
  (message.intersperse nl).drop 1

namespace Network

variable {π δ κ : Type} [DecidableEq π] [DecidableEq κ] (n : Network π δ κ)

/-- The next action of `runPipe`. -/
def perform (pipe : π) (kept : Bool) : Option (Network π δ κ) :=
  match n.remaining pipe with
  | [] => none
  | .sendMulti parts :: actions => some { n with
      remaining := Function.update n.remaining pipe actions
      uplink := Function.update n.uplink pipe ((n.uplink pipe).send kept parts) }
  | .hPut bytes :: actions => some { n with
      remaining := Function.update n.remaining pipe actions
      piped := Function.update n.piped pipe (n.piped pipe ++ bytes) }

/-- `receiveMulti s` in `runClient`. -/
def receive (client : κ) (connection : ℕ) : Option (Network π δ κ) :=
  if n.writing client = [] then
    (n.downlink (client, connection)).receive.map fun received => { n with
      downlink := Function.update n.downlink (client, connection) received.2
      received := Function.update n.received client
        (n.received client ++ [(connection, received.1)])
      writing := Function.update n.writing client (pieces received.1.2) }
  else none

/-- The next `hPut stdout` in `runClient`. -/
def write (client : κ) : Option (Network π δ κ) :=
  match n.writing client with
  | [] => none
  | piece :: rest => some { n with
      writing := Function.update n.writing client rest
      output := Function.update n.output client (n.output client ++ piece) }

/-- The messages of a pipe that a client has received over one of its connections. -/
def via (client : κ) (connection : ℕ) (pipe : π) : List Message :=
  tagged pipe (tagged connection (n.received client))

/-- The lines that a client has received, each with its connection and its pipe. -/
def lines (client : κ) : List (ℕ × π × ByteString) :=
  (n.received client).flatMap fun (connection, pipe, message) =>
    message.tail.map (connection, pipe, ·)

end Network

namespace Setting

variable {π δ κ : Type} (s : Setting π δ κ)

/-- The daemon at the other end of a connection of a client. -/
def connection (client : κ) (connection : ℕ) : Option δ :=
  (opts (s.args client)).bind fun parsed => parsed.1[connection]?.bind s.listens

/-- A client is subscribed to a topic if it begins with one of those of the client. -/
def subscribed (client : κ) (topic : ByteString) : Bool :=
  (opts (s.args client)).any fun parsed => parsed.2.any fun start => start.isPrefixOf topic

/-- All programs have been started, and nothing has been read yet. -/
def start : Network π δ κ where
  remaining pipe := runPipe (s.topic pipe) (s.chunks pipe)
  piped _ := []
  uplink _ := .empty
  holding _ := none
  forwarded _ := []
  downlink _ := .empty
  received _ := []
  writing _ := []
  output _ := []

variable [DecidableEq π] [DecidableEq δ] [DecidableEq κ]

/-- `receiveMulti subS` in `runDaemon`. -/
def take (pipe : π) (n : Network π δ κ) : Option (Network π δ κ) :=
  match n.holding (s.daemon pipe) with
  | some _ => none
  | none => (n.uplink pipe).receive.map fun received => { n with
      uplink := Function.update n.uplink pipe received.2
      holding := Function.update n.holding (s.daemon pipe) (some (pipe, received.1)) }

/-- `sendMulti pubS` in `runDaemon`. -/
def forward (daemon : δ) (kept : κ × ℕ → Bool) (n : Network π δ κ) : Option (Network π δ κ) :=
  (n.holding daemon).map fun entry => { n with
    holding := Function.update n.holding daemon none
    forwarded := Function.update n.forwarded daemon (n.forwarded daemon ++ [entry])
    downlink := fun link =>
      if s.connection link.1 link.2 = some daemon ∧ s.subscribed link.1 (firstPart entry.2) then
        (n.downlink link).send (kept link) entry
      else n.downlink link }

/-- Whatever can happen next. -/
def step (label : Label π δ κ) (n : Network π δ κ) : Option (Network π δ κ) :=
  match label with
  | .perform pipe kept => n.perform pipe kept
  | .take pipe => s.take pipe n
  | .forward daemon kept => s.forward daemon kept n
  | .receive client connection => n.receive client connection
  | .write client => n.write client

/-- Perform the entries of a run in order. -/
def run : List (Label π δ κ) → Network π δ κ → Option (Network π δ κ)
  | [], n => some n
  | label :: labels, n => (s.step label n).bind (run labels)

end Setting

/-- What a client has written of the lines it received, what it still has to write, and all these
lines: it stands between two lines, or within one, when the newline is written. -/
inductive Written : ByteString → List ByteString → List ByteString → Prop where
  | between (shown later : List ByteString) :
      Written (Lines.preceded 0x0A shown) (later.flatMap fun line => [nl, line]) (shown ++ later)
  | within (shown : List ByteString) (line : ByteString) (later : List ByteString) :
      Written (Lines.preceded 0x0A shown ++ nl) (line :: later.flatMap fun line => [nl, line])
        (shown ++ line :: later)

section Written

variable {output piece : ByteString} {writing rest lines : List ByteString}

/-- Of a message the lines are written, each with a newline before it. -/
theorem pieces_cons (topic : ByteString) (lines : List ByteString) :
    pieces (topic :: lines) = lines.flatMap fun line => [nl, line] := by
  rw [pieces]
  induction lines generalizing topic with
  | nil => rfl
  | cons line later ih =>
      have hlater := ih line
      rw [List.intersperse_cons_cons, List.flatMap_cons, ← hlater]
      cases later with
      | nil => rfl
      | cons next later => rw [List.intersperse_cons_cons]; rfl

/-- Before another line is received, everything has been written. -/
theorem Written.receive (h : Written output [] lines) (topic : ByteString)
    (later : List ByteString) : Written output (pieces (topic :: later)) (lines ++ later) := by
  rw [pieces_cons]
  generalize hwriting : ([] : List ByteString) = writing at h
  cases h with
  | between shown others =>
      cases others with
      | nil =>
          rw [List.append_nil]
          exact .between shown later
      | cons line others => simp at hwriting
  | within shown line others => simp at hwriting

/-- The next piece is written. -/
theorem Written.write (h : Written output (piece :: rest) lines) :
    Written (output ++ piece) rest lines := by
  generalize hwriting : piece :: rest = writing at h
  cases h with
  | between shown later =>
      cases later with
      | nil => simp at hwriting
      | cons line later =>
          obtain ⟨rfl, rfl⟩ := List.cons.inj hwriting
          exact .within shown line later
  | within shown line later =>
      obtain ⟨rfl, rfl⟩ := List.cons.inj hwriting
      have houtput : Lines.preceded 0x0A shown ++ nl ++ piece =
          Lines.preceded 0x0A (shown ++ [piece]) := by
        simp [Lines.preceded, nl]
      have hlines : shown ++ piece :: later = (shown ++ [piece]) ++ later := by simp
      rw [houtput, hlines]
      exact .between (shown ++ [piece]) later

/-- The lines of the output are the first ones received, and all of them when all is written. -/
theorem Written.nonempty_output (h : Written output writing lines)
    (hlines : ∀ line ∈ lines, 0x0A ∉ line ∧ line ≠ []) :
    Lines.nonempty 0x0A output <+: lines ∧ (writing = [] → Lines.nonempty 0x0A output = lines) := by
  cases h with
  | between shown later =>
      have hshown := Lines.nonempty_preceded_append
        (fun line hline => hlines line (List.mem_append_left _ hline)) [] (by simp)
      rw [List.append_nil, Lines.nonempty_nil, List.append_nil] at hshown
      rw [hshown]
      refine ⟨List.prefix_append _ _, fun hwriting => ?_⟩
      cases later with
      | nil => exact (List.append_nil _).symm
      | cons line later => simp at hwriting
  | within shown line later =>
      have hshown := Lines.nonempty_preceded_append
        (fun line hline => hlines line (List.mem_append_left _ hline)) nl (by simp [nl])
      rw [hshown]
      exact ⟨by simp [nl], fun hwriting => by simp at hwriting⟩

end Written

section Messages

variable {topic line : ByteString} {chunks : List ByteString} {message : Message}

/-- A pipe sends its topic and lines of a chunk. -/
theorem mem_messages_runPipe (h : message ∈ messages (runPipe topic chunks)) :
    ∃ chunk, message = topic :: chunkLines chunk := by
  rw [runPipe] at h
  induction chunks with
  | nil => simp [loop, messages] at h
  | cons chunk chunks ih =>
      have hput : ∀ (lines : List ByteString) (rest : List Action),
          messages (lines.map Action.hPut ++ rest) = messages rest := by
        intro lines rest
        induction lines with
        | nil => rfl
        | cons line lines ihlines => exact ihlines
      rw [loop] at h
      split at h
      · simp [messages] at h
      · rw [messages, hput, messages] at h
        rcases List.mem_cons.1 h with rfl | hlater
        · exact ⟨chunk, rfl⟩
        · exact ih hlater

/-- The lines of such a message are lines. -/
theorem mem_chunkLines {chunk : ByteString} (h : line ∈ chunkLines chunk) :
    0x0A ∉ line ∧ line ≠ [] := by
  rw [chunkLines_eq] at h
  refine ⟨Lines.sep_notMem_of_mem_nonempty h, ?_⟩
  simpa using (List.mem_filter.1 h).2

/-- Messages are sent one after the other. -/
theorem messages_append (first second : List Action) :
    messages (first ++ second) = messages first ++ messages second := by
  induction first with
  | nil => rfl
  | cons action first ih =>
      cases action with
      | sendMulti parts =>
          show parts :: messages (first ++ second) = parts :: messages first ++ messages second
          rw [ih, List.cons_append]
      | hPut bytes => exact ih

/-- Their lines are those that are sent. -/
theorem flatMap_tail_messages (actions : List Action) :
    (messages actions).flatMap List.tail = sentLines actions := by
  induction actions with
  | nil => rfl
  | cons action actions ih =>
      rw [sentLines, List.flatMap_cons, ← sentLines, ← ih]
      cases action <;> rfl

end Messages

variable {π δ κ : Type} {s : Setting π δ κ} {n n' : Network π δ κ}

/-- What a daemon has received. -/
def Network.taken (n : Network π δ κ) (daemon : δ) : List (π × Message) :=
  n.forwarded daemon ++ (n.holding daemon).toList

/-- What a daemon has sent to a connection of a client. -/
def Setting.offered (s : Setting π δ κ) (n : Network π δ κ) (link : κ × ℕ) :
    List (π × Message) :=
  match s.connection link.1 link.2 with
  | none => []
  | some daemon => (n.forwarded daemon).filter fun entry => s.subscribed link.1 (firstPart entry.2)

/-- Every program has done what `n` says with what it received, and the sockets are sound. -/
structure Network.Sound [DecidableEq π] [DecidableEq δ] (s : Setting π δ κ)
    (n : Network π δ κ) : Prop where
  performed : ∀ pipe, ∃ performed,
    runPipe (s.topic pipe) (s.chunks pipe) = performed ++ n.remaining pipe ∧
      n.piped pipe = stdout performed ∧ (n.uplink pipe).sent = messages performed
  uplink : ∀ pipe, (n.uplink pipe).Sound
  taken : ∀ daemon pipe, tagged pipe (n.taken daemon) =
    if s.daemon pipe = daemon then (n.uplink pipe).received else []
  offered : ∀ link, (n.downlink link).sent = s.offered n link
  downlink : ∀ link, (n.downlink link).Sound
  received : ∀ client connection,
    tagged connection (n.received client) = (n.downlink (client, connection)).received
  written : ∀ client, Written (n.output client) (n.writing client)
    ((n.received client).flatMap fun entry => entry.2.2.tail)

section Steps

variable [DecidableEq π] [DecidableEq δ]

/-- At the start all is sound. -/
theorem sound_start : s.start.Sound s where
  performed pipe := ⟨[], rfl, rfl, rfl⟩
  uplink _ := Channel.sound_empty
  taken daemon pipe := (ite_self _).symm
  offered link := by
    simp only [Setting.offered]
    cases s.connection link.1 link.2 <;> rfl
  downlink _ := Channel.sound_empty
  received _ _ := rfl
  written _ := .between [] []

/-- A pipe performs its next action. -/
theorem Network.Sound.perform (h : n.Sound s) {pipe : π} {kept : Bool}
    (hperform : n.perform pipe kept = some n') : n'.Sound s := by
  obtain ⟨performed, hrun, hpiped, hsent⟩ := h.performed pipe
  rw [Network.perform] at hperform
  split at hperform
  · simp at hperform
  · next parts actions hremaining =>
      rw [← Option.some.inj hperform]
      refine { h with
        performed := fun other => ?_, uplink := fun other => ?_, taken := fun daemon other => ?_ }
      · dsimp only
        by_cases hother : other = pipe
        · subst hother
          refine ⟨performed ++ [.sendMulti parts], ?_, ?_, ?_⟩
          · rw [hrun, hremaining, Function.update_self, List.append_assoc, List.singleton_append]
          · simp [hpiped, stdout, Action.written]
          · rw [Function.update_self, Channel.sent_send, hsent, messages_append]
            rfl
        · simp only [Function.update_of_ne hother]
          exact h.performed other
      · exact (Function.forall_update_iff n.uplink fun _ channel => channel.Sound).2
          ⟨(h.uplink pipe).send, fun other _ => h.uplink other⟩ other
      · have hreceived : (Function.update n.uplink pipe ((n.uplink pipe).send kept parts)
            other).received = (n.uplink other).received := by
          by_cases hother : other = pipe
          · subst hother
            rw [Function.update_self, Channel.received_send]
          · rw [Function.update_of_ne hother]
        rw [hreceived]
        exact h.taken daemon other
  · next bytes actions hremaining =>
      rw [← Option.some.inj hperform]
      refine { h with performed := fun other => ?_ }
      dsimp only
      by_cases hother : other = pipe
      · subst hother
        refine ⟨performed ++ [.hPut bytes], ?_, ?_, ?_⟩
        · rw [hrun, hremaining, Function.update_self, List.append_assoc, List.singleton_append]
        · rw [Function.update_self, hpiped, stdout, stdout, List.flatMap_append]
          simp [Action.written]
        · rw [hsent, messages_append, messages, messages, List.append_nil]
      · simp only [Function.update_of_ne hother]
        exact h.performed other

/-- A daemon receives a message. -/
theorem Network.Sound.take (h : n.Sound s) {pipe : π} (htake : s.take pipe n = some n') :
    n'.Sound s := by
  rw [Setting.take] at htake
  split at htake
  · simp at htake
  · next hfree =>
      obtain ⟨⟨message, channel⟩, hreceive, rfl⟩ := Option.map_eq_some_iff.1 htake
      obtain ⟨_, hsent, hreceived⟩ := Channel.receive_eq_some hreceive
      refine { h with
        performed := fun other => ?_, uplink := fun other => ?_, taken := fun daemon other => ?_ }
      · dsimp only
        by_cases hother : other = pipe
        · subst hother
          simp only [Function.update_self, hsent]
          exact h.performed other
        · simp only [Function.update_of_ne hother]
          exact h.performed other
      · exact (Function.forall_update_iff n.uplink fun _ channel => channel.Sound).2
          ⟨(h.uplink pipe).receive hreceive, fun other _ => h.uplink other⟩ other
      · have htaken := h.taken daemon other
        by_cases hdaemon : daemon = s.daemon pipe
        · subst hdaemon
          rw [Network.taken, hfree, Option.toList_none, List.append_nil] at htaken
          simp only [Network.taken, Function.update_self, Option.toList_some, tagged_append, htaken,
            tagged_cons, tagged_nil]
          by_cases hother : other = pipe
          · subst hother
            simp [hreceived]
          · simp [Function.update_of_ne hother, Ne.symm hother]
        · simp only [Network.taken, Function.update_of_ne hdaemon]
          rw [← Network.taken, htaken]
          by_cases hother : other = pipe
          · subst hother
            rw [if_neg (Ne.symm hdaemon), if_neg (Ne.symm hdaemon)]
          · rw [Function.update_of_ne hother]

/-- A daemon sends a message on. -/
theorem Network.Sound.forward (h : n.Sound s) {daemon : δ} {kept : κ × ℕ → Bool}
    (hforward : s.forward daemon kept n = some n') : n'.Sound s := by
  obtain ⟨entry, hholding, rfl⟩ := Option.map_eq_some_iff.1 hforward
  refine { h with
    taken := fun other pipe => ?_, offered := fun link => ?_, downlink := fun link => ?_
    received := fun client connection => ?_ }
  · rw [← h.taken other pipe]
    by_cases hother : other = daemon
    · subst hother
      simp [Network.taken, hholding]
    · simp [Network.taken, Function.update_of_ne hother]
  · have hoffered := h.offered link
    simp only [Setting.offered] at hoffered ⊢
    cases hconnection : s.connection link.1 link.2 with
    | none =>
        simp only [hconnection] at hoffered
        simpa using hoffered
    | some other =>
        simp only [hconnection] at hoffered
        by_cases hother : other = daemon
        · subst hother
          dsimp only
          rw [Function.update_self, List.filter_append, ← hoffered]
          by_cases hsubscribed : s.subscribed link.1 (firstPart entry.2) <;> simp [hsubscribed]
        · simp [hother, hoffered]
  · dsimp only
    split
    · exact (h.downlink link).send
    · exact h.downlink link
  · rw [h.received client connection]
    dsimp only
    split
    · exact (Channel.received_send).symm
    · rfl

/-- A daemon receives messages of pipes, and each begins with the topic of its pipe. -/
theorem Network.Sound.of_taken (h : n.Sound s) {daemon : δ} {entry : π × Message}
    (hentry : entry ∈ n.taken daemon) :
    s.daemon entry.1 = daemon ∧ firstPart entry.2 = s.topic entry.1 ∧
      entry.2 ∈ messages (runPipe (s.topic entry.1) (s.chunks entry.1)) := by
  have htaken : entry.2 ∈ tagged entry.1 (n.taken daemon) := mem_tagged.2 hentry
  rw [h.taken daemon entry.1] at htaken
  split at htaken
  · next hdaemon =>
      obtain ⟨performed, hrun, _, hsent⟩ := h.performed entry.1
      have hmem := (h.uplink entry.1).received.subset htaken
      have hmessage : entry.2 ∈ messages (runPipe (s.topic entry.1) (s.chunks entry.1)) := by
        rw [hrun, messages_append, ← hsent]
        exact List.mem_append_left _ hmem
      obtain ⟨chunk, hparts⟩ := mem_messages_runPipe hmessage
      rw [hparts] at hmessage ⊢
      exact ⟨hdaemon, rfl, hmessage⟩
  · simp at htaken

/-- What is on the way to a client comes from a pipe. -/
theorem Network.Sound.of_arriving (h : n.Sound s) {link : κ × ℕ} {entry : π × Message}
    (hentry : entry ∈ (n.downlink link).arriving) :
    s.connection link.1 link.2 = some (s.daemon entry.1) ∧
      s.subscribed link.1 (s.topic entry.1) = true ∧
        entry.2 ∈ messages (runPipe (s.topic entry.1) (s.chunks entry.1)) := by
  have hoffered := (h.downlink link).subset hentry
  rw [h.offered link, Setting.offered] at hoffered
  split at hoffered
  · simp at hoffered
  · next daemon hconnection =>
      obtain ⟨hforwarded, hsubscribed⟩ := List.mem_filter.1 hoffered
      obtain ⟨rfl, htopic, hmessage⟩ := h.of_taken (List.mem_append_left _ hforwarded)
      exact ⟨hconnection, htopic ▸ hsubscribed, hmessage⟩

variable [DecidableEq κ]

/-- A client receives a message. -/
theorem Network.Sound.receive (h : n.Sound s) {client : κ} {connection : ℕ}
    (hreceive : n.receive client connection = some n') : n'.Sound s := by
  rw [Network.receive, Option.ite_none_right_eq_some] at hreceive
  obtain ⟨hwritten, hmap⟩ := hreceive
  obtain ⟨⟨entry, channel⟩, hchannel, rfl⟩ := Option.map_eq_some_iff.1 hmap
  obtain ⟨hqueue, hsent, hreceived⟩ := Channel.receive_eq_some hchannel
  have hentry : entry ∈ (n.downlink (client, connection)).arriving := by
    rw [Channel.arriving, hqueue]
    exact List.mem_append_right _ List.mem_cons_self
  obtain ⟨_, _, hmessage⟩ := h.of_arriving hentry
  refine { h with
    offered := fun link => ?_, downlink := fun link => ?_, received := fun other across => ?_
    written := fun other => ?_ }
  · refine (?_ : _ = (n.downlink link).sent).trans (h.offered link)
    dsimp only
    by_cases hlink : link = (client, connection)
    · subst hlink
      rw [Function.update_self, hsent]
    · rw [Function.update_of_ne hlink]
  · exact (Function.forall_update_iff n.downlink fun _ channel => channel.Sound).2
      ⟨(h.downlink _).receive hchannel, fun link _ => h.downlink link⟩ link
  · have hbefore := h.received other across
    dsimp only
    by_cases hother : other = client
    · subst hother
      rw [Function.update_self, tagged_append, hbefore, tagged_cons, tagged_nil]
      by_cases hacross : connection = across
      · subst hacross
        rw [Function.update_self, hreceived, if_pos rfl]
      · rw [if_neg hacross, List.append_nil, Function.update_of_ne (by simp [Ne.symm hacross])]
    · rw [Function.update_of_ne hother, Function.update_of_ne (by simp [hother]), hbefore]
  · dsimp only
    by_cases hother : other = client
    · subst hother
      obtain ⟨chunk, hparts⟩ := mem_messages_runPipe hmessage
      have hbefore := h.written other
      rw [hwritten] at hbefore
      rw [Function.update_self, Function.update_self, List.flatMap_append, List.flatMap_singleton,
        hparts]
      exact hbefore.receive _ _
    · rw [Function.update_of_ne hother, Function.update_of_ne hother]
      exact h.written other

/-- A client writes the next piece. -/
theorem Network.Sound.write (h : n.Sound s) {client : κ} (hwrite : n.write client = some n') :
    n'.Sound s := by
  rw [Network.write] at hwrite
  split at hwrite
  · simp at hwrite
  · next piece rest hwriting =>
      rw [← Option.some.inj hwrite]
      refine { h with written := fun other => ?_ }
      dsimp only
      by_cases hother : other = client
      · subst hother
        have hbefore := h.written other
        rw [hwriting] at hbefore
        rw [Function.update_self, Function.update_self]
        exact hbefore.write
      · rw [Function.update_of_ne hother, Function.update_of_ne hother]
        exact h.written other

/-- Whatever happens keeps all sound. -/
theorem Network.Sound.step (h : n.Sound s) {label : Label π δ κ}
    (hstep : s.step label n = some n') : n'.Sound s := by
  cases label with
  | perform pipe kept => exact h.perform hstep
  | take pipe => exact h.take hstep
  | forward daemon kept => exact h.forward hstep
  | receive client connection => exact h.receive hstep
  | write client => exact h.write hstep

/-- All is sound in every run. -/
theorem Network.Sound.run (h : n.Sound s) {labels : List (Label π δ κ)}
    (hrun : s.run labels n = some n') : n'.Sound s := by
  induction labels generalizing n with
  | nil => exact Option.some.inj hrun ▸ h
  | cons label labels ih =>
      obtain ⟨middle, hstep, hrest⟩ := Option.bind_eq_some_iff.1 hrun
      exact ih (h.step hstep) hrest

end Steps

section Shown

variable [DecidableEq π]

/-- The messages of a pipe that are on the way to a client. -/
def Setting.inTransit (s : Setting π δ κ) (n : Network π δ κ) (client : κ) (connection : ℕ)
    (pipe : π) : List Message :=
  tagged pipe (n.downlink (client, connection)).queue ++
    tagged pipe (n.holding (s.daemon pipe)).toList ++ (n.uplink pipe).queue

/-- The lines of a pipe are those of its messages. -/
theorem tagged_lines (n : Network π δ κ) (client : κ) (connection : ℕ) (pipe : π) :
    tagged pipe (tagged connection (n.lines client)) =
      (n.via client connection pipe).flatMap List.tail := by
  have hlines : n.lines client = (n.received client).flatMap fun entry =>
      (entry.2.2.tail.map (entry.2.1, ·)).map (entry.1, ·) := by
    rw [Network.lines]
    refine List.flatMap_congr fun entry _ => ?_
    rw [List.map_map]
    rfl
  rw [hlines, tagged_flatMap (fun entry : π × Message => entry.2.tail.map (entry.1, ·)),
    tagged_flatMap]
  rfl

variable [DecidableEq δ]

/-- A client receives messages of a pipe in the order in which they were sent. -/
theorem Network.Sound.via_sublist (h : n.Sound s) (client : κ) (connection : ℕ) (pipe : π) :
    (n.via client connection pipe).Sublist (n.uplink pipe).sent := by
  have hsent := tagged_sublist pipe (h.downlink (client, connection)).received
  rw [h.offered (client, connection), Setting.offered] at hsent
  rw [Network.via, h.received client connection]
  refine hsent.trans ?_
  split
  · exact List.nil_sublist _
  · next daemon _ =>
      have hforwarded : (n.forwarded daemon).Sublist (n.taken daemon) :=
        List.sublist_append_left _ _
      refine (tagged_sublist pipe (List.filter_sublist.trans hforwarded)).trans ?_
      rw [h.taken daemon pipe]
      split
      · exact (h.uplink pipe).received
      · exact List.nil_sublist _

/-- What a pipe has sent are the first of its messages. -/
theorem Network.Sound.sent (h : n.Sound s) (pipe : π) :
    (n.uplink pipe).sent <+: messages (runPipe (s.topic pipe) (s.chunks pipe)) := by
  obtain ⟨performed, hrun, _, hsent⟩ := h.performed pipe
  rw [hrun, messages_append, hsent]
  exact List.prefix_append _ _

variable [DecidableEq κ] {labels : List (Label π δ κ)}

/-- In every run a client shows the lines that it receives, whole and in order. Those that it
receives over a connection from a pipe are the lines of some of its messages, in the order in which
they were sent, and only if the connection leads to its daemon and the client subscribed to it. -/
theorem shows_lines (hrun : s.run labels s.start = some n) (client : κ) :
    (Lines.nonempty 0x0A (n.output client) <+: (n.lines client).map (fun line => line.2.2) ∧
      (n.writing client = [] →
        Lines.nonempty 0x0A (n.output client) = (n.lines client).map fun line => line.2.2)) ∧
    ∀ connection pipe,
      tagged pipe (tagged connection (n.lines client)) =
        (n.via client connection pipe).flatMap List.tail ∧
      (n.via client connection pipe).Sublist
        (messages (runPipe (s.topic pipe) (s.chunks pipe))) ∧
      (n.via client connection pipe ≠ [] →
        s.connection client connection = some (s.daemon pipe) ∧
          s.subscribed client (s.topic pipe) = true) := by
  have h := sound_start.run hrun
  have hcomes : ∀ connection pipe message, message ∈ n.via client connection pipe →
      s.connection client connection = some (s.daemon pipe) ∧
        s.subscribed client (s.topic pipe) = true ∧
          message ∈ messages (runPipe (s.topic pipe) (s.chunks pipe)) := by
    intro connection pipe message hmessage
    have hreceived := mem_tagged.1 hmessage
    rw [h.received client connection] at hreceived
    exact h.of_arriving (List.mem_append_left _ hreceived)
  have hlines : (n.lines client).map (fun line => line.2.2) =
      (n.received client).flatMap fun entry => entry.2.2.tail := by
    rw [Network.lines, List.map_flatMap]
    refine List.flatMap_congr fun entry _ => ?_
    rw [List.map_map]
    exact List.map_id _
  refine ⟨?_, fun connection pipe => ⟨tagged_lines n client connection pipe, ?_, fun hsome => ?_⟩⟩
  · rw [hlines]
    refine (h.written client).nonempty_output fun line hline => ?_
    obtain ⟨⟨connection, pipe, message⟩, hentry, htail⟩ := List.mem_flatMap.1 hline
    obtain ⟨_, _, hmessage⟩ := hcomes connection pipe message (mem_tagged.2 (mem_tagged.2 hentry))
    obtain ⟨chunk, rfl⟩ := mem_messages_runPipe hmessage
    exact mem_chunkLines htail
  · exact (h.via_sublist client connection pipe).trans (h.sent pipe).sublist
  · obtain ⟨message, hmessage⟩ := List.exists_mem_of_ne_nil _ hsome
    obtain ⟨hconnection, hsubscribed, _⟩ := hcomes connection pipe message hmessage
    exact ⟨hconnection, hsubscribed⟩

end Shown

section Kept

variable {client : κ} {connection : ℕ} {pipe : π}

/-- Nothing is dropped on the way from a pipe to a client. -/
def Label.Keeps (link : κ × ℕ) (pipe : π) (daemon : δ) : Label π δ κ → Prop
  | .perform other kept => other = pipe → kept = true
  | .forward other kept => other = daemon → kept link = true
  | _ => True

variable [DecidableEq π] [DecidableEq δ] [DecidableEq κ]

/-- Where nothing is dropped, what is sent will arrive after everything that was on the way. -/
theorem Network.Sound.keeps_step (h : n.Sound s) {label : Label π δ κ}
    (hconnection : s.connection client connection = some (s.daemon pipe))
    (hsubscribed : s.subscribed client (s.topic pipe) = true)
    (hkeeps : label.Keeps (client, connection) pipe (s.daemon pipe))
    (hstep : s.step label n = some n') :
    ∃ later, (n'.uplink pipe).sent = (n.uplink pipe).sent ++ later ∧
      n'.via client connection pipe ++ s.inTransit n' client connection pipe =
        n.via client connection pipe ++ s.inTransit n client connection pipe ++ later := by
  cases label with
  | perform other kept =>
      simp only [Setting.step, Network.perform] at hstep
      split at hstep
      · simp at hstep
      · next parts actions hremaining =>
          rw [← Option.some.inj hstep]
          by_cases hother : other = pipe
          · subst hother
            -- The daemon's queue takes the message: it is the whole of `later`.
            obtain rfl : kept = true := hkeeps rfl
            refine ⟨[parts], ?_, ?_⟩
            · simp
            · simp [Network.via, Setting.inTransit, Channel.send]
          · refine ⟨[], ?_, ?_⟩
            · simp [Function.update_of_ne (Ne.symm hother)]
            · simp [Network.via, Setting.inTransit, Function.update_of_ne (Ne.symm hother)]
      · rw [← Option.some.inj hstep]
        exact ⟨[], (List.append_nil _).symm, (List.append_nil _).symm⟩
  | take other =>
      simp only [Setting.step, Setting.take] at hstep
      split at hstep
      · simp at hstep
      · next hfree =>
          obtain ⟨⟨message, channel⟩, hreceive, rfl⟩ := Option.map_eq_some_iff.1 hstep
          obtain ⟨hqueue, hsent, _⟩ := Channel.receive_eq_some hreceive
          by_cases hother : other = pipe
          · subst hother
            refine ⟨[], ?_, ?_⟩
            · simp [hsent]
            · simp [Network.via, Setting.inTransit, hfree, hqueue]
          · refine ⟨[], ?_, ?_⟩
            · simp [Function.update_of_ne (Ne.symm hother)]
            · -- Another pipe of the same daemon only makes what the daemon holds longer.
              by_cases hdaemon : s.daemon pipe = s.daemon other
              · simp [Network.via, Setting.inTransit, Function.update_of_ne (Ne.symm hother),
                  hdaemon, hfree, hother]
              · simp [Network.via, Setting.inTransit, Function.update_of_ne (Ne.symm hother),
                  Function.update_of_ne hdaemon]
  | forward daemon kept =>
      obtain ⟨entry, hholding, rfl⟩ := Option.map_eq_some_iff.1 hstep
      refine ⟨[], (List.append_nil _).symm, ?_⟩
      by_cases hdaemon : s.daemon pipe = daemon
      · subst hdaemon
        have hentry : entry ∈ n.taken (s.daemon pipe) := by
          rw [Network.taken, hholding]
          exact List.mem_append_right _ List.mem_cons_self
        -- Every message that a daemon holds carries the topic of its pipe, and this client
        -- subscribes to that one: the copy goes into the connection.
        have htopic := (h.of_taken hentry).2.1
        have hkept : kept (client, connection) = true := hkeeps rfl
        by_cases horigin : entry.1 = pipe
        · subst horigin
          simp [Network.via, Setting.inTransit, hholding, hconnection, htopic, hsubscribed,
            Channel.send, hkept, tagged]
        · by_cases hother : s.subscribed client (firstPart entry.2) = true
          · simp [Network.via, Setting.inTransit, hholding, hconnection, hother, Channel.send,
              hkept, tagged, horigin]
          · simp [Network.via, Setting.inTransit, hholding, hother, tagged, horigin]
      · simp [Network.via, Setting.inTransit, hconnection, hdaemon]
  | receive other across =>
      simp only [Setting.step, Network.receive, Option.ite_none_right_eq_some] at hstep
      obtain ⟨_, hmap⟩ := hstep
      obtain ⟨⟨entry, channel⟩, hchannel, rfl⟩ := Option.map_eq_some_iff.1 hmap
      obtain ⟨hqueue, _, _⟩ := Channel.receive_eq_some hchannel
      refine ⟨[], (List.append_nil _).symm, ?_⟩
      by_cases hother : other = client
      · subst hother
        by_cases hacross : across = connection
        · subst hacross
          -- The front of the connection moves to the lines received: their concatenation is the
          -- same.
          obtain ⟨origin, message⟩ := entry
          by_cases horigin : origin = pipe <;>
            simp [Network.via, Setting.inTransit, hqueue, horigin]
        · simp [Network.via, Setting.inTransit, hacross, Ne.symm hacross]
      · simp [Network.via, Setting.inTransit, Ne.symm hother]
  | write other =>
      simp only [Setting.step, Network.write] at hstep
      split at hstep
      · simp at hstep
      · rw [← Option.some.inj hstep]
        exact ⟨[], (List.append_nil _).symm, (List.append_nil _).symm⟩

/-- From any moment on, as long as nothing is dropped on the way from a pipe to a client that is
connected to its daemon and subscribed to its topic, the client receives what was on the way and
then every message that the pipe sends, in order and once for each connection, or it is still on the
way. -/
theorem shows_later {before after : List (Label π δ κ)}
    (hconnection : s.connection client connection = some (s.daemon pipe))
    (hsubscribed : s.subscribed client (s.topic pipe) = true)
    (hbefore : s.run before s.start = some n) (hafter : s.run after n = some n')
    (hkeeps : ∀ label ∈ after, label.Keeps (client, connection) pipe (s.daemon pipe)) :
    ∃ later, (n'.uplink pipe).sent = (n.uplink pipe).sent ++ later ∧
      n'.via client connection pipe ++ s.inTransit n' client connection pipe =
        n.via client connection pipe ++ s.inTransit n client connection pipe ++ later := by
  have h := sound_start.run hbefore
  clear hbefore
  induction after generalizing n with
  | nil =>
      rw [← Option.some.inj hafter]
      exact ⟨[], (List.append_nil _).symm, (List.append_nil _).symm⟩
  | cons label labels ih =>
      obtain ⟨hlabel, hlabels⟩ := List.forall_mem_cons.1 hkeeps
      obtain ⟨middle, hstep, hrest⟩ := Option.bind_eq_some_iff.1 hafter
      obtain ⟨first, hsent, hway⟩ := h.keeps_step hconnection hsubscribed hlabel hstep
      obtain ⟨later, hsent', hway'⟩ := ih hrest hlabels (h.step hstep)
      refine ⟨first ++ later, ?_, ?_⟩
      · rw [hsent', hsent, List.append_assoc]
      · rw [hway', hway, List.append_assoc _ first later]

/-- A client shows the lines it has received, and those from a pipe are exactly the lines that
`svlogd` gets from it, if nothing is dropped on the way, the input of the pipe is cut at its lines,
and everything has been done. -/
theorem shows_stream {labels : List (Label π δ κ)}
    (hconnection : s.connection client connection = some (s.daemon pipe))
    (hsubscribed : s.subscribed client (s.topic pipe) = true)
    (hchunks : [] ∉ s.chunks pipe) (hcut : CutAtLines (s.chunks pipe))
    (hrun : s.run labels s.start = some n)
    (hkeeps : ∀ label ∈ labels, label.Keeps (client, connection) pipe (s.daemon pipe))
    (hread : n.remaining pipe = []) (harrived : s.inTransit n client connection pipe = [])
    (hwritten : n.writing client = []) :
    Lines.nonempty 0x0A (n.output client) = (n.lines client).map (fun line => line.2.2) ∧
      tagged pipe (tagged connection (n.lines client)) =
        Lines.nonempty 0x0A (s.chunks pipe).flatten ∧
      n.piped pipe = Lines.terminated 0x0A (tagged pipe (tagged connection (n.lines client))) := by
  obtain ⟨⟨_, hshown⟩, hlines⟩ := shows_lines hrun client
  obtain ⟨performed, hperformed, hpiped, hsent⟩ := (sound_start.run hrun).performed pipe
  rw [hread, List.append_nil] at hperformed
  obtain ⟨hstdout, hstream⟩ := hcut.passesThrough (s.topic pipe) hchunks
  obtain ⟨later, hlater, hway⟩ := shows_later hconnection hsubscribed (rfl : s.run [] s.start = _)
    hrun hkeeps
  have hvia : n.via client connection pipe = messages performed := by
    have hall : later = messages performed := hlater.symm.trans hsent
    rw [harrived, List.append_nil] at hway
    rw [hway, hall]
    rfl
  have htagged : tagged pipe (tagged connection (n.lines client)) =
      Lines.nonempty 0x0A (s.chunks pipe).flatten := by
    rw [(hlines connection pipe).1, hvia, flatMap_tail_messages, ← hperformed, hstream]
  refine ⟨hshown hwritten, htagged, ?_⟩
  rw [hpiped, ← hperformed, hstdout, htagged]

end Kept

section Sample

/-- A machine with two services, and somebody who follows the errors of one of them. -/
def Setting.sample : Setting Bool Unit Unit where
  daemon _ := ()
  topic
    | true => [97, 46, 101]
    | false => [98]
  chunks
    | true => [[120, 10], [121, 10]]
    | false => [[119, 10]]
  args _ := [[104, 58, 49], [97]]
  listens address := if address = [104, 58, 49] then some () else none

/-- The first message of the service is dropped, the other service's is not forwarded, and the last
one is written. -/
def sampleDropped : List (Label Bool Unit Unit) :=
  [.perform true true, .take true, .forward () fun _ => false, .perform true true,
    .perform false true, .take false, .forward () fun _ => true, .perform true true,
    .perform true true, .take true, .forward () fun _ => true, .receive () 0, .write (), .write ()]

/-- All messages of the service are kept, and its pipe comes to the end. -/
def sampleKept : List (Label Bool Unit Unit) :=
  [.perform true true, .perform true true, .take true, .forward () fun _ => true,
    .perform true true, .receive () 0, .perform true true, .write (), .take true,
    .forward () fun _ => true, .write (), .perform true true, .perform true true, .receive () 0,
    .write (), .write ()]

/-- The line of the message that was not dropped is shown. -/
theorem shows_lines_sample : ∃ n, Setting.sample.run sampleDropped Setting.sample.start = some n ∧
    Lines.nonempty 0x0A (n.output ()) = [[121]] ∧
    Lines.nonempty 0x0A (n.output ()) <+: (n.lines ()).map fun line => line.2.2 := by
  have hexecuted : (Setting.sample.run sampleDropped Setting.sample.start).any
      (fun n => Lines.nonempty 0x0A (n.output ()) = [[121]]) = true := rfl
  obtain ⟨n, hrun, hshown⟩ := (Option.any_eq_true _ _).1 hexecuted
  exact ⟨n, hrun, of_decide_eq_true hshown, (shows_lines hrun ()).1.1⟩

theorem keeps_sampleKept :
    ∀ label ∈ sampleKept, label.Keeps ((), 0) true (Setting.sample.daemon true) := by
  simp [sampleKept, Label.Keeps]

/-- Everything that the service has sent is shown. -/
theorem shows_later_sample : ∃ n, Setting.sample.run sampleKept Setting.sample.start = some n ∧
    Setting.sample.inTransit n () 0 true = [] ∧
    ∃ later, (n.uplink true).sent = later ∧ n.via () 0 true = later := by
  have hexecuted : (Setting.sample.run sampleKept Setting.sample.start).any
      (fun n => Setting.sample.inTransit n () 0 true = []) = true := rfl
  obtain ⟨n, hrun, harrived⟩ := (Option.any_eq_true _ _).1 hexecuted
  obtain ⟨later, hsent, hvia⟩ := shows_later (by decide) (by decide)
    (rfl : Setting.sample.run [] Setting.sample.start = some Setting.sample.start) hrun
    keeps_sampleKept
  rw [of_decide_eq_true harrived, List.append_nil] at hvia
  exact ⟨n, hrun, of_decide_eq_true harrived, later, hsent, hvia⟩

/-- Both lines of the service are shown, and `svlogd` gets them. -/
theorem shows_stream_sample : ∃ n, Setting.sample.run sampleKept Setting.sample.start = some n ∧
    Lines.nonempty 0x0A (n.output ()) = (n.lines ()).map (fun line => line.2.2) ∧
    tagged true (tagged 0 (n.lines ())) = [[120], [121]] ∧ n.piped true = [120, 10, 121, 10] := by
  have hexecuted : (Setting.sample.run sampleKept Setting.sample.start).any
      (fun n => n.remaining true = [] ∧ Setting.sample.inTransit n () 0 true = [] ∧
        n.writing () = []) = true := rfl
  obtain ⟨n, hrun, hdone⟩ := (Option.any_eq_true _ _).1 hexecuted
  obtain ⟨hread, harrived, hwritten⟩ := of_decide_eq_true hdone
  have hcut : CutAtLines (Setting.sample.chunks true) :=
    ⟨by decide, by simp [Setting.sample, Lines.Parted]⟩
  obtain ⟨hshown, hlines, hpiped⟩ := shows_stream (by decide) (by decide) (by decide) hcut hrun
    keeps_sampleKept hread harrived hwritten
  have hstream : tagged true (tagged 0 (n.lines ())) = [[120], [121]] := hlines
  rw [hstream] at hpiped
  exact ⟨n, hrun, hshown, hstream, hpiped⟩

end Sample

end Barn.Rtail
