import StateSync.Rpc.Server

/-!
# No request is lost

A client sends a text. What the connection has dispatched, followed by the lines of the bytes it has
not dispatched yet, is always the lines of the text, as long as no event fires while `read_line`
holds a part of a line. When one does, the part is dropped with the future.
-/

namespace StateSync

open Broadcast Lines

namespace Connection

def taken (c : Connection) : List UInt8 :=
  match c.pc with
  | .selecting taken => taken
  | _ => []

/-- The bytes that are not part of a dispatched line yet, in order. -/
def unread (c : Connection) : List UInt8 := c.taken ++ (c.buffer ++ (c.inbox ++ c.unsent))

def Running (c : Connection) : Prop := ∀ exit, c.pc ≠ .ended exit

/-- Nothing of the text was lost, repeated or reordered: the dispatched lines are the first lines of
the text, the unread bytes encode the rest, and at the end of the stream there is no rest. -/
structure Lossless (text : List Char) (c : Connection) : Prop where
  dispatched : c.dispatched <+: trimmedLines text
  unread : c.Running → ∃ rest, c.unread = encode rest
    ∧ c.dispatched ++ trimmedLines rest = trimmedLines text
  eof : c.pc = .ended .eof → c.dispatched = trimmedLines text
  valid : c.pc ≠ .ended (.readError .invalidData)

/-- No complete line waits inside `read_line`, and the client closes only after its last byte. -/
structure Framed (c : Connection) : Prop where
  midLine : newline ∉ c.taken
  closed : c.closed = true → c.unsent = []

def isBlank (bytes : List UInt8) : Bool := (decode bytes).any fun text => text.all isWhitespace

/-- The event arm fires only while `read_line` holds no part of a request. -/
def EventsBetweenLines (c : Connection) : ConnectionAction → Prop
  | .event => isBlank c.taken = true
  | _ => True

instance (c : Connection) (a : ConnectionAction) : Decidable (c.EventsBetweenLines a) :=
  match a with
  | .event => inferInstanceAs (Decidable (isBlank c.taken = true))
  | .arrive _ | .close | .fill _ _ _ | .write _ | .cancel | .readFails | .others _ _ _ =>
      isTrue trivial

/-! ### A request that arrives in two pieces -/

def subscribeLine : String := "\x7b\"jsonrpc\":\"2.0\",\"method\":\"state.subscribe\",\"id\":1\x7d"

def statusLine : String := "\x7b\"jsonrpc\":\"2.0\",\"method\":\"sync.status\",\"id\":2\x7d"

def requestOf (line : String) : Except String RpcRequest :=
  if line = subscribeLine then
    .ok { jsonrpc := "2.0", method := "state.subscribe", params := .null, id := some (.ofNat 1) }
  else if line = statusLine then
    .ok { jsonrpc := "2.0", method := "sync.status", params := .null, id := some (.ofNat 2) }
  else .error "expected value at line 1 column 1"

def idleHandler : RpcHandler :=
  { store := StateStore.new "a", events := { sent := [], capacity := 4 }, peers := ∅ }

def otherSet : ConnectionAction :=
  let v := LwwValue.new "v" "a" 5
  .others (setLocked ∅ "k" v).1 ∅ [{ key := "k", value := v }]

def twoRequests : List Char := subscribeLine.toList ++ '\n' :: (statusLine.toList ++ ['\n'])

/-- The second request arrives without its last byte. The event that fires then takes the place of
the pending `read_line`, and the rest of the line is dispatched as if it were a request. -/
def splitRequest : List ConnectionAction :=
  [.arrive (twoRequests.length - 2), .fill 200 7 fun _ => 0, .write true, .fill 200 7 fun _ => 0,
    otherSet, .event, .write true, .arrive 2, .fill 200 8 fun _ => 0]

theorem request_cut_off :
    ∃ c, Machine.run (step requestOf) (new idleHandler twoRequests) splitRequest = some c
      ∧ trimmedLines twoRequests = [subscribeLine, statusLine]
      ∧ c.dispatched = [subscribeLine, "\x7d"] ∧ ¬ Lossless twoRequests c := by
  have hany : (Machine.run (step requestOf) (new idleHandler twoRequests) splitRequest).any
      (fun c => c.dispatched = [subscribeLine, "\x7d"]) = true := by decide +kernel
  obtain ⟨c, hrun, hc⟩ := Machine.exists_of_any_run hany
  rw [decide_eq_true_eq] at hc
  have hlines : trimmedLines twoRequests = [subscribeLine, statusLine] := by decide +kernel
  refine ⟨c, hrun, hlines, hc, ?_⟩
  intro h
  have hfirst := h.dispatched
  rw [hc, hlines] at hfirst
  exact absurd hfirst (by decide)

/-! ### What a step does -/

theorem running_of_selecting {c : Connection} {taken : List UInt8} (hpc : c.pc = .selecting taken) :
    c.Running := by
  simp [Running, hpc]

theorem running_of_writing {c : Connection} {line : Outgoing} (hpc : c.pc = .writing line) :
    c.Running := by
  simp [Running, hpc]

theorem Lossless.of_unread {text rest : List Char} {c : Connection} (hrunning : c.Running)
    (hunread : c.unread = encode rest)
    (hlines : c.dispatched ++ trimmedLines rest = trimmedLines text) : Lossless text c where
  dispatched := ⟨trimmedLines rest, hlines⟩
  unread := fun _ => ⟨rest, hunread, hlines⟩
  eof := fun heof => absurd heof (hrunning .eof)
  valid := hrunning _

theorem Lossless.of_unread_eq {text : List Char} {c c' : Connection} (h : Lossless text c)
    (hrunning : c.Running) (hrunning' : c'.Running) (hunread : c'.unread = c.unread)
    (hdispatched : c'.dispatched = c.dispatched) : Lossless text c' := by
  obtain ⟨rest, hrest, hlines⟩ := h.unread hrunning
  exact of_unread hrunning' (hunread.trans hrest) (hdispatched ▸ hlines)

theorem handleLine_spec (fromStr : String → Except String RpcRequest) (now : Nat)
    (lastSeenSecs : String → Nat) (c : Connection) (line : List Char) :
    (handleLine fromStr now lastSeenSecs c (encode line)).Running
      ∧ (handleLine fromStr now lastSeenSecs c (encode line)).dispatched
          = c.dispatched ++ trimmedLine line
      ∧ (handleLine fromStr now lastSeenSecs c (encode line)).taken = []
      ∧ (handleLine fromStr now lastSeenSecs c (encode line)).unread
          = c.buffer ++ (c.inbox ++ c.unsent) := by
  unfold handleLine trimmedLine
  rw [decode_encode]
  by_cases hblank : trim line = []
  · simp [hblank, Running, taken, unread]
  · simp only [hblank, if_false]
    split <;> simp [Running, taken, unread]

theorem fillBuf_spec {c : Connection} {n : Nat} {available inbox : List UInt8}
    (hfill : c.fillBuf n = some (available, inbox)) :
    available ++ inbox = c.buffer ++ c.inbox ∧ (available = [] → inbox = [] ∧ c.closed = true) := by
  unfold fillBuf at hfill
  split at hfill
  · rename_i hbuffer
    obtain ⟨rfl, rfl⟩ := Prod.mk.inj (Option.some.inj hfill)
    exact ⟨rfl, fun hnil => absurd hnil hbuffer⟩
  · rename_i hbuffer
    rw [not_not] at hbuffer
    split at hfill
    · rename_i hinbox
      split at hfill
      · rename_i hn
        obtain ⟨rfl, rfl⟩ := Prod.mk.inj (Option.some.inj hfill)
        refine ⟨by rw [hbuffer, List.take_append_drop, List.nil_append], ?_⟩
        intro hnil
        obtain hzero | hnil := List.take_eq_nil_iff.mp hnil
        · exact absurd hzero (Nat.pos_iff_ne_zero.mp hn.1)
        · exact absurd hnil hinbox
      · exact absurd hfill (by simp)
    · rename_i hinbox
      rw [not_not] at hinbox
      split at hfill
      · rename_i hclosed
        obtain ⟨rfl, rfl⟩ := Prod.mk.inj (Option.some.inj hfill)
        exact ⟨by rw [hbuffer, hinbox], fun _ => ⟨rfl, hclosed⟩⟩
      · exact absurd hfill (by simp)

/-- Everything a turn of the loop inside `read_line` can do: complete a line, collect a part of one,
or meet the end of the stream. -/
theorem pollReadLine_cases {fromStr : String → Except String RpcRequest} {n now : Nat}
    {lastSeenSecs : String → Nat} {c c' : Connection} {taken : List UInt8}
    (hpoll : c.pollReadLine fromStr n now lastSeenSecs taken = some c') :
    (∃ before after inbox, newline ∉ before
      ∧ before ++ newline :: (after ++ inbox) = c.buffer ++ c.inbox
      ∧ c' = handleLine fromStr now lastSeenSecs { c with inbox := inbox, buffer := after }
          (taken ++ before ++ [newline])) ∨
    (∃ available inbox, available ≠ [] ∧ newline ∉ available
      ∧ available ++ inbox = c.buffer ++ c.inbox
      ∧ c' = { c with inbox := inbox, buffer := [], pc := .selecting (taken ++ available) }) ∨
    (c.closed = true ∧ c.buffer ++ c.inbox = [] ∧
      ((taken = [] ∧ c' = { c with inbox := [], buffer := [], pc := .ended .eof }) ∨
        (taken ≠ [] ∧ c' = handleLine fromStr now lastSeenSecs
          { c with inbox := [], buffer := [] } taken))) := by
  simp only [pollReadLine, Option.bind_eq_bind, Option.bind_eq_some_iff] at hpoll
  obtain ⟨⟨available, inbox⟩, hfill, hpoll⟩ := hpoll
  obtain ⟨hbytes, hwait⟩ := fillBuf_spec hfill
  cases hdrop : available.dropWhile (· ≠ newline) with
  | cons b after =>
      simp only [hdrop, Option.some.injEq] at hpoll
      obtain ⟨hnl, hsplit⟩ := takeWhile_append_newline hdrop
      refine Or.inl ⟨available.takeWhile (· ≠ newline), after, inbox, hnl, ?_, hpoll.symm⟩
      rw [← hbytes, ← List.cons_append, ← List.append_assoc, hsplit]
  | nil =>
      simp only [hdrop] at hpoll
      split at hpoll
      · rename_i hsome
        exact Or.inr (Or.inl ⟨available, inbox, hsome, notMem_of_dropWhile_eq_nil hdrop, hbytes,
          (Option.some.inj hpoll).symm⟩)
      · rename_i hnil
        rw [not_not] at hnil
        obtain ⟨rfl, hclosed⟩ := hwait hnil
        rw [hnil] at hbytes
        refine Or.inr (Or.inr ⟨hclosed, hbytes.symm, ?_⟩)
        split at hpoll
        · rename_i htaken
          exact Or.inl ⟨htaken, (Option.some.inj hpoll).symm⟩
        · rename_i htaken
          exact Or.inr ⟨htaken, (Option.some.inj hpoll).symm⟩

structure SameBytes (c c' : Connection) : Prop where
  buffer : c'.buffer = c.buffer
  inbox : c'.inbox = c.inbox
  unsent : c'.unsent = c.unsent
  closed : c'.closed = c.closed
  dispatched : c'.dispatched = c.dispatched

theorem SameBytes.unread {c c' : Connection} (h : SameBytes c c') (htaken : c'.taken = []) :
    c.unread = c.taken ++ c'.unread := by
  rw [Connection.unread, Connection.unread, htaken, h.buffer, h.inbox, h.unsent, List.nil_append]

theorem pollSubscription_spec {c c' : Connection} (hpoll : c.pollSubscription = some c') :
    SameBytes c c' ∧ c'.Running ∧ c'.taken = [] := by
  simp only [pollSubscription, Option.bind_eq_bind, Option.bind_eq_some_iff] at hpoll
  obtain ⟨receiver, -, ⟨polled, receiver'⟩, -, hpoll⟩ := hpoll
  cases polled with
  | value ev =>
      simp only at hpoll
      split at hpoll
      · obtain rfl := Option.some.inj hpoll
        exact ⟨⟨rfl, rfl, rfl, rfl, rfl⟩, running_of_writing rfl, rfl⟩
      · obtain rfl := Option.some.inj hpoll
        exact ⟨⟨rfl, rfl, rfl, rfl, rfl⟩, running_of_selecting rfl, rfl⟩
  | lagged missed =>
      obtain rfl := Option.some.inj hpoll
      exact ⟨⟨rfl, rfl, rfl, rfl, rfl⟩, running_of_writing rfl, rfl⟩

/-- Everything a step of a connection can be; `around` is one of the client, the network or the
other tasks of the node. -/
inductive Steps (fromStr : String → Except String RpcRequest) (c c' : Connection) :
    ConnectionAction → Prop
  | around {a : ConnectionAction} (hpc : c'.pc = c.pc) (hbuffer : c'.buffer = c.buffer)
      (hbytes : c'.inbox ++ c'.unsent = c.inbox ++ c.unsent)
      (hclosed : (c.closed = true → c.unsent = []) → c'.closed = true → c'.unsent = [])
      (hdispatched : c'.dispatched = c.dispatched) : Steps fromStr c c' a
  | read {n now : Nat} {lastSeenSecs : String → Nat} {taken : List UInt8}
      (hpc : c.pc = .selecting taken)
      (hpoll : c.pollReadLine fromStr n now lastSeenSecs taken = some c') :
      Steps fromStr c c' (.fill n now lastSeenSecs)
  | event {taken : List UInt8} (hpc : c.pc = .selecting taken) (hsame : SameBytes c c')
      (hrunning : c'.Running) (htaken : c'.taken = []) : Steps fromStr c c' .event
  | wrote {a : ConnectionAction} {line : Outgoing} (hpc : c.pc = .writing line)
      (hsame : SameBytes c c') (hpc' : c'.pc = .selecting []) : Steps fromStr c c' a
  | ended {a : ConnectionAction} {exit : Exit} (hsame : SameBytes c c')
      (hpc' : c'.pc = .ended exit) (heof : exit ≠ .eof)
      (hvalid : exit ≠ .readError .invalidData) : Steps fromStr c c' a

theorem step_spec {fromStr : String → Except String RpcRequest} {c c' : Connection}
    {a : ConnectionAction} (hstep : c.step fromStr a = some c') : Steps fromStr c c' a := by
  cases moves_of_step hstep with
  | arrive hn =>
      refine .around rfl rfl (by simp) ?_ rfl
      intro hclosed hclosed'
      simp [hclosed hclosed']
  | close hunsent => exact .around rfl rfl rfl (fun _ _ => hunsent) rfl
  | fill hpc hpoll => exact .read hpc hpoll
  | event hpc hpoll =>
      obtain ⟨hsame, hrunning, htaken⟩ := pollSubscription_spec hpoll
      exact .event hpc hsame hrunning htaken
  | wrote hpc => exact .wrote hpc ⟨rfl, rfl, rfl, rfl, rfl⟩ rfl
  | writeFailed hpc => exact .ended ⟨rfl, rfl, rfl, rfl, rfl⟩ rfl (by simp) (by simp)
  | cancelled hpc => exact .ended ⟨rfl, rfl, rfl, rfl, rfl⟩ rfl (by simp) (by simp)
  | readFailed hpc => exact .ended ⟨rfl, rfl, rfl, rfl, rfl⟩ rfl (by simp) (by simp)
  | others => exact .around rfl rfl rfl id rfl

/-! ### The step lemmas -/

theorem Lossless.of_ended {text : List Char} {c c' : Connection} {exit : Exit}
    (h : Lossless text c) (hpc : c'.pc = .ended exit) (hdispatched : c'.dispatched = c.dispatched)
    (heof : exit ≠ .eof) (hvalid : exit ≠ .readError .invalidData) : Lossless text c' where
  dispatched := hdispatched ▸ h.dispatched
  unread := fun hrunning => absurd hpc (hrunning exit)
  eof := fun hend => absurd (ConnectionPc.ended.inj (hpc.symm.trans hend)) heof
  valid := fun hend => absurd (ConnectionPc.ended.inj (hpc.symm.trans hend)) hvalid

theorem lossless_handleLine {fromStr : String → Except String RpcRequest} {now : Nat}
    {lastSeenSecs : String → Nat} {c : Connection} {text line rest : List Char}
    (hunread : c.buffer ++ (c.inbox ++ c.unsent) = encode rest)
    (hlines : c.dispatched ++ (trimmedLine line ++ trimmedLines rest) = trimmedLines text) :
    Lossless text (handleLine fromStr now lastSeenSecs c (encode line)) := by
  obtain ⟨hrunning, hdispatched, -, hunread'⟩ := handleLine_spec fromStr now lastSeenSecs c line
  apply Lossless.of_unread hrunning (hunread'.trans hunread)
  rw [hdispatched, List.append_assoc, hlines]

theorem Lossless.pollReadLine {fromStr : String → Except String RpcRequest} {n now : Nat}
    {lastSeenSecs : String → Nat} {text : List Char} {c c' : Connection} {taken : List UInt8}
    (h : Lossless text c) (hframed : c.Framed) (hpc : c.pc = .selecting taken)
    (hpoll : c.pollReadLine fromStr n now lastSeenSecs taken = some c') : Lossless text c' := by
  obtain ⟨rest, hrest, hlines⟩ := h.unread (running_of_selecting hpc)
  have htaken : c.taken = taken := by rw [Connection.taken, hpc]
  have hnl := htaken ▸ hframed.midLine
  rw [Connection.unread, htaken] at hrest
  obtain ⟨before, after, inbox, hbefore, hbytes, rfl⟩ | ⟨available, inbox, -, -, hbytes, rfl⟩
      | ⟨hclosed, hempty, hend⟩ := pollReadLine_cases hpoll
  · -- the newline byte is a newline character of the unread text
    have hsplit : (taken ++ before) ++ newline :: (after ++ (inbox ++ c.unsent)) = encode rest := by
      rw [← hrest, ← List.append_assoc c.buffer, ← hbytes]
      simp
    obtain ⟨line, rest', rfl, hline, hbefore', hafter⟩ := exists_of_append_newline
      (by simp [hnl, hbefore]) hsplit
    have hencode : taken ++ before ++ [newline] = encode (line ++ ['\n']) := by
      rw [hbefore', encode_append]
      rfl
    rw [hencode]
    apply lossless_handleLine hafter
    rw [trimmedLine_append_newline, ← trimmedLines_append_newline hline, hlines]
  · refine h.of_unread_eq (running_of_selecting hpc) (running_of_selecting rfl) ?_ rfl
    rw [Connection.unread, Connection.unread, htaken, ← List.append_assoc c.buffer, ← hbytes]
    simp [Connection.taken]
  · -- nothing is left but the bytes of a last line without newline
    have hrest' : taken = encode rest := by
      rw [← hrest, ← List.append_assoc c.buffer, hempty, hframed.closed hclosed]
      simp
    obtain ⟨rfl, rfl⟩ | ⟨-, rfl⟩ := hend
    · have hnil : rest = [] := encode_injective hrest'.symm
      rw [hnil, trimmedLines_nil, List.append_nil] at hlines
      exact
        { dispatched := hlines ▸ List.prefix_refl _
          unread := fun hrunning => absurd rfl (hrunning .eof)
          eof := fun _ => hlines
          valid := by simp }
    · have hline : '\n' ∉ rest := by
        intro hmem
        exact hnl (hrest' ▸ newline_mem_encode hmem)
      have hnone : [] ++ ([] ++ c.unsent) = encode [] := by rw [hframed.closed hclosed]; rfl
      rw [hrest']
      apply lossless_handleLine hnone
      rw [trimmedLines_nil, List.append_nil, ← trimmedLines_of_notMem hline, hlines]

/-- The event arm drops the bytes `read_line` has collected; white space is not missed. -/
theorem Lossless.drop_blank {text : List Char} {c c' : Connection} (h : Lossless text c)
    (hrunning : c.Running) (hrunning' : c'.Running) (hblank : isBlank c.taken = true)
    (hunread : c.unread = c.taken ++ c'.unread) (hdispatched : c'.dispatched = c.dispatched) :
    Lossless text c' := by
  obtain ⟨rest, hrest, hlines⟩ := h.unread hrunning
  obtain ⟨ws, hdecode, hws⟩ := (Option.any_eq_true _ _).mp hblank
  rw [hunread, eq_encode_of_decode hdecode] at hrest
  obtain ⟨rest', rfl, hrest'⟩ := exists_of_encode_append hrest
  rw [trimmedLines_whitespace_append fun ch hch => List.all_eq_true.mp hws ch hch] at hlines
  exact of_unread hrunning' hrest' (hdispatched ▸ hlines)

theorem handleLine_framed {fromStr : String → Except String RpcRequest} {now : Nat}
    {lastSeenSecs : String → Nat} {c : Connection} {line : List UInt8}
    (hclosed : c.closed = true → c.unsent = []) :
    (handleLine fromStr now lastSeenSecs c line).Framed := by
  unfold handleLine
  split
  · exact ⟨by simp [taken], hclosed⟩
  · split
    · exact ⟨by simp [taken], hclosed⟩
    · simp only
      split <;> exact ⟨by simp [taken], hclosed⟩

theorem Framed.of_sameBytes {c c' : Connection} (h : c.Framed) (hsame : SameBytes c c')
    (htaken : c'.taken = []) : c'.Framed where
  midLine := by simp [htaken]
  closed := by
    rw [hsame.closed, hsame.unsent]
    exact h.closed

theorem Framed.step {fromStr : String → Except String RpcRequest} {c c' : Connection}
    {a : ConnectionAction} (h : c.Framed) (hstep : c.step fromStr a = some c') : c'.Framed := by
  cases step_spec hstep with
  | around hpc hbuffer hbytes hclosed hdispatched =>
      exact ⟨by rw [taken, hpc]; exact h.midLine, hclosed h.closed⟩
  | read hpc hpoll =>
      have hmid := h.midLine
      rw [taken, hpc] at hmid
      obtain ⟨before, after, inbox, -, -, rfl⟩ | ⟨available, inbox, -, hnl, -, rfl⟩
          | ⟨-, -, ⟨-, rfl⟩ | ⟨-, rfl⟩⟩ := pollReadLine_cases hpoll
      · exact handleLine_framed h.closed
      · exact ⟨by simp [taken, hmid, hnl], h.closed⟩
      · exact ⟨by simp [taken], h.closed⟩
      · exact handleLine_framed h.closed
  | event hpc hsame hrunning htaken => exact h.of_sameBytes hsame htaken
  | wrote hpc hsame hpc' => exact h.of_sameBytes hsame (by rw [taken, hpc'])
  | ended hsame hpc' heof hvalid => exact h.of_sameBytes hsame (by rw [taken, hpc'])

theorem Lossless.step {fromStr : String → Except String RpcRequest} {text : List Char}
    {c c' : Connection} {a : ConnectionAction} (h : Lossless text c) (hframed : c.Framed)
    (hevent : c.EventsBetweenLines a) (hstep : c.step fromStr a = some c') : Lossless text c' := by
  cases step_spec hstep with
  | around hpc hbuffer hbytes hclosed hdispatched =>
      have hunread : c'.unread = c.unread := by
        rw [Connection.unread, Connection.unread, Connection.taken, Connection.taken, hpc, hbuffer,
          hbytes]
      have hrunning : c'.Running → c.Running := by simp only [Running, hpc, imp_self]
      exact
        { dispatched := hdispatched ▸ h.dispatched
          unread := by
            rw [hunread, hdispatched]
            exact fun hr => h.unread (hrunning hr)
          eof := by
            rw [hpc, hdispatched]
            exact h.eof
          valid := by
            rw [hpc]
            exact h.valid }
  | read hpc hpoll => exact h.pollReadLine hframed hpc hpoll
  | event hpc hsame hrunning htaken =>
      exact h.drop_blank (running_of_selecting hpc) hrunning hevent (hsame.unread htaken)
        hsame.dispatched
  | wrote hpc hsame hpc' =>
      have htaken : c.taken = [] := by rw [Connection.taken, hpc]
      have hunread := hsame.unread (by rw [Connection.taken, hpc'])
      rw [htaken, List.nil_append] at hunread
      exact h.of_unread_eq (running_of_writing hpc) (running_of_selecting hpc') hunread.symm
        hsame.dispatched
  | ended hsame hpc' heof hvalid => exact h.of_ended hpc' hsame.dispatched heof hvalid

/-! ### Reading to the end -/

/-- What is left to do: each byte moves from the client to the socket, into `read_line` and away. -/
def work (c : Connection) : Nat :=
  4 * c.unsent.length + 3 * (c.buffer ++ c.inbox).length + 2 * c.taken.length
    + (if c.closed then 0 else 1)
    + match c.pc with
      | .writing _ => 1
      | _ => 0

theorem handleLine_work {fromStr : String → Except String RpcRequest} {now : Nat}
    {lastSeenSecs : String → Nat} {c : Connection} {line : List UInt8} :
    (handleLine fromStr now lastSeenSecs c line).work
      ≤ 4 * c.unsent.length + 3 * (c.buffer ++ c.inbox).length
        + (if c.closed then 0 else 1) + 1 := by
  unfold handleLine
  split
  · simp [work, taken]
  · split
    · simp [work, taken]
    · simp only
      split <;> simp [work, taken]

theorem handleLine_running {fromStr : String → Except String RpcRequest} {now : Nat}
    {lastSeenSecs : String → Nat} {c : Connection} {line : List UInt8}
    (hvalid : (handleLine fromStr now lastSeenSecs c line).pc ≠ .ended (.readError .invalidData)) :
    (handleLine fromStr now lastSeenSecs c line).Running := by
  unfold handleLine at hvalid ⊢
  split
  · rename_i hdecode
    simp [hdecode] at hvalid
  · split
    · exact running_of_selecting rfl
    · simp only
      split <;> simp [Running]

theorem pollReadLine_work {fromStr : String → Except String RpcRequest} {n now : Nat}
    {lastSeenSecs : String → Nat} {c c' : Connection} {taken : List UInt8}
    (hpc : c.pc = .selecting taken)
    (hpoll : c.pollReadLine fromStr n now lastSeenSecs taken = some c')
    (hvalid : c'.pc ≠ .ended (.readError .invalidData)) :
    c'.pc = .ended .eof ∨ c'.Running ∧ c'.work < c.work := by
  have hwork : c.work = 4 * c.unsent.length + 3 * (c.buffer ++ c.inbox).length + 2 * taken.length
      + (if c.closed then 0 else 1) := by
    simp [work, Connection.taken, hpc]
  obtain ⟨before, after, inbox, -, hbytes, rfl⟩ | ⟨available, inbox, hsome, -, hbytes, rfl⟩
      | ⟨-, hempty, ⟨-, rfl⟩ | ⟨htaken, rfl⟩⟩ := pollReadLine_cases hpoll
  · refine Or.inr ⟨handleLine_running hvalid, ?_⟩
    have hlength := congrArg List.length hbytes
    simp only [List.length_append, List.length_cons] at hlength hwork
    calc
      _ ≤ 4 * c.unsent.length + 3 * (after ++ inbox).length + (if c.closed then 0 else 1) + 1 :=
        handleLine_work
      _ < c.work := by
        rw [hwork, List.length_append]
        omega
  · refine Or.inr ⟨running_of_selecting rfl, ?_⟩
    have hlength := congrArg List.length hbytes
    have hpos := List.length_pos_of_ne_nil hsome
    simp only [List.length_append, work, Connection.taken, List.nil_append] at hlength hwork ⊢
    omega
  · exact Or.inl rfl
  · refine Or.inr ⟨handleLine_running hvalid, ?_⟩
    have hpos := List.length_pos_of_ne_nil htaken
    calc
      _ ≤ 4 * c.unsent.length + 3 * 0 + (if c.closed then 0 else 1) + 1 := handleLine_work
      _ < c.work := by
        rw [hwork]
        omega

theorem exists_fillBuf {c : Connection} (h : c.buffer ++ c.inbox ≠ [] ∨ c.closed = true) :
    ∃ filled, c.fillBuf 1 = some filled := by
  unfold fillBuf
  by_cases hbuffer : c.buffer = []
  · by_cases hinbox : c.inbox = []
    · have hclosed : c.closed = true := by
        obtain hsome | hclosed := h
        · exact absurd (by rw [hbuffer, hinbox, List.nil_append]) hsome
        · exact hclosed
      exact ⟨([], []), by simp [hbuffer, hinbox, hclosed]⟩
    · exact ⟨(c.inbox.take 1, c.inbox.drop 1), by simp [hbuffer, hinbox, bufferSize]⟩
  · exact ⟨(c.buffer, c.inbox), by simp [hbuffer]⟩

theorem exists_pollReadLine (fromStr : String → Except String RpcRequest) {c : Connection}
    (taken : List UInt8) (h : c.buffer ++ c.inbox ≠ [] ∨ c.closed = true) :
    ∃ c', c.pollReadLine fromStr 1 0 (fun _ => 0) taken = some c' := by
  obtain ⟨⟨available, inbox⟩, hfill⟩ := exists_fillBuf h
  simp only [pollReadLine, hfill, Option.bind_eq_bind, Option.bind_some]
  split
  · exact ⟨_, rfl⟩
  · split
    · exact ⟨_, rfl⟩
    · split
      · exact ⟨_, rfl⟩
      · exact ⟨_, rfl⟩

/-- A connection that has not ended is never stuck: some step other than an event gets on. -/
theorem exists_step {fromStr : String → Except String RpcRequest} {text : List Char}
    {c : Connection} (h : Lossless text c) (hframed : c.Framed) (hrunning : c.Running) :
    ∃ a c', c.step fromStr a = some c' ∧ c.EventsBetweenLines a
      ∧ (c'.pc = .ended .eof ∨ c'.Running ∧ c'.work < c.work) := by
  cases hpc : c.pc with
  | ended exit => exact absurd hpc (hrunning exit)
  | writing line =>
      refine ⟨.write true, { c with written := c.written ++ [line], pc := .selecting [] },
        by simp [step, hpc], trivial, Or.inr ⟨?_, ?_⟩⟩
      · exact running_of_selecting rfl
      · simp [work, taken, hpc]
  | selecting taken =>
      by_cases hbytes : c.buffer ++ c.inbox ≠ [] ∨ c.closed = true
      · obtain ⟨c', hpoll⟩ := exists_pollReadLine fromStr taken hbytes
        have hstep : c.step fromStr (.fill 1 0 fun _ => 0) = some c' := by
          simp only [step, hpc, hpoll]
        have hguard : c.EventsBetweenLines (.fill 1 0 fun _ => 0) := trivial
        exact ⟨_, c', hstep, hguard,
          pollReadLine_work hpc hpoll (h.step hframed hguard hstep).valid⟩
      · rw [not_or, not_not] at hbytes
        by_cases hunsent : c.unsent = []
        · refine ⟨.close, { c with closed := true }, by simp [step, hunsent], trivial,
            Or.inr ⟨?_, ?_⟩⟩
          · exact running_of_selecting hpc
          · simp [work, Connection.taken, hbytes.2]
        · have hpos := List.length_pos_of_ne_nil hunsent
          refine ⟨.arrive c.unsent.length, { c with inbox := c.inbox ++ c.unsent, unsent := [] },
            by simp [step, hpos], trivial, Or.inr ⟨?_, ?_⟩⟩
          · exact running_of_selecting hpc
          · simp only [work, Connection.taken, List.length_append, List.length_nil]
            omega

theorem exists_run_eof {fromStr : String → Except String RpcRequest} {text : List Char}
    {c : Connection} (h : Lossless text c) (hframed : c.Framed) (hrunning : c.Running) :
    ∃ as c', Machine.run (step fromStr) c as = some c' ∧ c'.pc = .ended .eof
      ∧ c'.dispatched = trimmedLines text := by
  induction hwork : c.work using Nat.strong_induction_on generalizing c with
  | _ k ih =>
      subst hwork
      obtain ⟨a, u, hstep, hguard, heof | ⟨hrunning', hless⟩⟩ := exists_step h hframed hrunning
      · refine ⟨[a], u, Machine.run_cons_eq_some.mpr ⟨u, hstep, rfl⟩, heof, ?_⟩
        exact (h.step hframed hguard hstep).eof heof
      · obtain ⟨as, c', hrun, hend⟩ :=
          ih u.work hless (h.step hframed hguard hstep) (hframed.step hstep) hrunning' rfl
        exact ⟨a :: as, c', Machine.run_cons_eq_some.mpr ⟨u, hstep, hrun⟩, hend⟩

/-! ### Runs -/

theorem lossless_new (handler : RpcHandler) (text : List Char) :
    Lossless text (new handler text) := by
  have hunread : (new handler text).unread = encode text := rfl
  exact Lossless.of_unread (running_of_selecting rfl) hunread rfl

theorem framed_new (handler : RpcHandler) (text : List Char) : (new handler text).Framed :=
  ⟨List.not_mem_nil, fun hclosed => absurd hclosed (by simp [new])⟩

/-- **No request is lost.** Whatever text a client sends, in whatever chunks it arrives, and
whatever events and lag signals come in between: as long as none of them fires while `read_line`
holds a part of a line, every line is dispatched once, in order, and the stream can be read to its
end. -/
theorem dispatched_lines {fromStr : String → Except String RpcRequest} {handler : RpcHandler}
    {text : List Char} {as : List ConnectionAction} {c : Connection}
    (hevents : Machine.Guarded (step fromStr) EventsBetweenLines (new handler text) as)
    (hrun : Machine.run (step fromStr) (new handler text) as = some c) :
    Lossless text c ∧ (c.Running → ∃ bs c', Machine.run (step fromStr) c bs = some c'
      ∧ c'.pc = .ended .eof ∧ c'.dispatched = trimmedLines text) := by
  obtain ⟨hlossless, hframed⟩ : Lossless text c ∧ c.Framed := by
    refine Machine.run_invariant_of_guarded (P := fun c => Lossless text c ∧ c.Framed) ?_
      ⟨lossless_new handler text, framed_new handler text⟩ hevents hrun
    intro s a t hs hguard hstep
    exact ⟨hs.1.step hs.2 hguard hstep, hs.2.step hstep⟩
  exact ⟨hlossless, exists_run_eof hlossless hframed⟩

def spacedRequests : List Char := subscribeLine.toList ++ ['\n', ' '] ++ statusLine.toList

/-- The event fires when only the white space before the second request has been taken. -/
def eventBetween : List ConnectionAction :=
  [.arrive (subscribeLine.length + 2), .fill 200 7 fun _ => 0, .write true, .fill 200 7 fun _ => 0,
    otherSet, .event, .write true, .arrive 10, .fill 200 8 fun _ => 0]

theorem dispatched_lines_blank :
    ∃ c, Machine.run (step requestOf) (new idleHandler spacedRequests) eventBetween = some c
      ∧ c.dispatched = [subscribeLine] ∧ c.taken.length = 10 ∧ Lossless spacedRequests c := by
  have hany : (Machine.run (step requestOf) (new idleHandler spacedRequests) eventBetween).any
      (fun c => c.dispatched = [subscribeLine] && c.taken.length = 10) = true := by decide +kernel
  obtain ⟨c, hrun, hc⟩ := Machine.exists_of_any_run hany
  rw [Bool.and_eq_true, decide_eq_true_eq, decide_eq_true_eq] at hc
  exact ⟨c, hrun, hc.1, hc.2, (dispatched_lines (by decide +kernel) hrun).1⟩

end Connection

end StateSync
