import MustDb.Proofs.Libv.Connections

/-!
# `MustDb.Proofs.Libv.GracefulClose`: a response in front of a close

`process` can leave a response and ask for the end of the connection, with `closed`. Then `ts_write`
flushes the response once, and closes the connection whether or not all of it was sent: `closed` can
also mean that `write` failed, and the two are not told apart. So the whole response is sent, or
ended by an error, exactly when no call of `write` in this flush would block in front of its end
(`Drains`, `flush_finished_iff`). `graceful_close_drains` is about every run whose flushes drain.

The log of a worker does not have the results of `write`, so a run here also collects them
(`Traced`).
-/

set_option autoImplicit false

namespace MustDb.Proofs.Libv

open MustDb.Lib
open MustDb.Libv

/-! ### One flush -/

/-- What `write` returns to `flush_conn`, call by call. -/
def flushAnswers : List WriteAnswer → NetConn → List WriteAnswer
  | answers, conn =>
      if conn.outoff < conn.outlen then
        match answers with
        | [] => [.again]
        | answer :: answers =>
            if answer.goesOn (conn.outlen - conn.outoff) then
              answer :: flushAnswers answers (conn.wrote answer)
            else [answer]
      else []

/-- No call of `write` would block in front of the end of `length` bytes, up to an error. A count
of `0` ends the loop like `EAGAIN`. -/
def Drains : List WriteAnswer → Nat → Prop
  | _, 0 => True
  | [], _ + 1 => False
  | .count n :: answers, length + 1 => n ≠ 0 ∧ Drains answers (length + 1 - min n (length + 1))
  | .interrupted :: answers, length + 1 => Drains answers (length + 1)
  | .again :: _, _ + 1 => False
  | .error :: _, _ + 1 => True

instance decidableDrains : ∀ (answers : List WriteAnswer) (length : Nat),
    Decidable (Drains answers length)
  | _, 0 => isTrue (by simp [Drains])
  | [], _ + 1 => isFalse (by simp [Drains])
  | .count n :: answers, length + 1 =>
      have := decidableDrains answers (length + 1 - min n (length + 1))
      decidable_of_iff (n ≠ 0 ∧ Drains answers (length + 1 - min n (length + 1)))
        (by simp [Drains])
  | .interrupted :: answers, length + 1 =>
      have := decidableDrains answers (length + 1)
      decidable_of_iff (Drains answers (length + 1)) (by simp [Drains])
  | .again :: _, _ + 1 => isFalse (by simp [Drains])
  | .error :: _, _ + 1 => isTrue (by simp [Drains])

theorem unsent_clearOut (conn : NetConn) : unsent conn.clearOut = [] := rfl

theorem unsent_ne_nil {conn : NetConn} (hpending : conn.outoff < conn.outlen)
    (hlength : conn.outlen ≤ conn.out.length) : unsent conn ≠ [] := by
  refine List.ne_nil_of_length_pos ?_
  rw [unsent, List.length_take, List.length_drop]
  omega

theorem goesOn_count (k : Nat) {length : Nat} (h : 0 < length) :
    (WriteAnswer.count k).goesOn length = decide (k ≠ 0) := by
  have hmin : min k length = 0 ↔ k = 0 := by omega
  simp only [WriteAnswer.goesOn, WriteAnswer.taken, ne_eq, hmin]

/-- A flush sends the whole response, or ends with an error of `write`, exactly when its answers
drain. -/
theorem flush_finished_iff (answers : List WriteAnswer) (conn : NetConn)
    (hlength : conn.outlen ≤ conn.out.length) :
    unsent (flushConn answers conn).1 = [] ∨ .error ∈ flushAnswers answers conn ↔
      Drains answers (conn.outlen - conn.outoff) := by
  induction answers generalizing conn with
  | nil =>
      rw [flushConn, flushAnswers]
      by_cases hpending : conn.outoff < conn.outlen
      · have hne := unsent_ne_nil hpending hlength
        obtain ⟨n, hn⟩ := Nat.exists_eq_add_one_of_ne_zero (Nat.sub_ne_zero_of_lt hpending)
        rw [if_pos hpending, if_pos hpending, hn]
        simp [hne, Drains]
      · rw [if_neg hpending, if_neg hpending, Nat.sub_eq_zero_of_le (Nat.not_lt.mp hpending)]
        simp [Drains, unsent_clearOut]
  | cons answer answers ih =>
      rw [flushConn, flushAnswers]
      by_cases hpending : conn.outoff < conn.outlen
      · have hne := unsent_ne_nil hpending hlength
        obtain ⟨n, hn⟩ := Nat.exists_eq_add_one_of_ne_zero (Nat.sub_ne_zero_of_lt hpending)
        have hrest := ih (conn.wrote answer) hlength
        rw [if_pos hpending, if_pos hpending]
        cases answer with
        | count k =>
            have hgo := goesOn_count k (Nat.succ_pos n)
            by_cases hk : k = 0
            · -- a count of `0` ends the loop, and takes nothing
              subst hk
              have hsame : conn.wrote (.count 0) = conn := by
                simp [NetConn.wrote, WriteAnswer.taken]
              simp only [hgo, ne_eq, not_true_eq_false, decide_false, Bool.false_eq_true, if_false,
                hsame, hne, hn, Drains, false_and, iff_false]
              simp
            · have hleft : (conn.wrote (.count k)).outlen - (conn.wrote (.count k)).outoff
                  = n + 1 - min k (n + 1) := by
                rw [NetConn.wrote, ← hn, ← Nat.sub_sub]
                rfl
              rw [hleft] at hrest
              simp only [hgo, if_true, List.mem_cons, reduceCtorEq, false_or, hrest, hn, Drains,
                ne_eq, hk, not_false_eq_true, decide_true, true_and]
        | interrupted =>
            have hgo : WriteAnswer.interrupted.goesOn (n + 1) = true := rfl
            have hsame : conn.wrote .interrupted = conn := by
              simp [NetConn.wrote, WriteAnswer.taken]
            rw [hsame, hn] at hrest
            simp only [hgo, if_true, List.mem_cons, reduceCtorEq, false_or, hsame, hrest, hn,
              Drains]
        | again =>
            have hstop : WriteAnswer.again.goesOn (n + 1) = false := rfl
            have hsame : conn.wrote .again = conn := by
              simp [NetConn.wrote, WriteAnswer.taken]
            simp [hstop, hsame, hne, hn, Drains]
        | error =>
            have hstop : WriteAnswer.error.goesOn (n + 1) = false := rfl
            simp [hstop, hn, Drains]
      · rw [if_neg hpending, if_neg hpending, Nat.sub_eq_zero_of_le (Nat.not_lt.mp hpending)]
        simp [Drains, unsent_clearOut]

/-- The calls of a flush are calls of `write`. -/
theorem mem_flushConn {answers : List WriteAnswer} {conn : NetConn} {event : ConnEvent}
    (h : event ∈ (flushConn answers conn).2) : ∃ conn' answer, event = writeEvent conn' answer := by
  induction answers generalizing conn with
  | nil =>
      rw [flushConn] at h
      split at h
      · exact ⟨conn, .again, List.mem_singleton.mp h⟩
      · cases h
  | cons answer answers ih =>
      rw [flushConn] at h
      split at h
      · simp only at h
        split at h
        · rcases List.mem_cons.mp h with rfl | h
          · exact ⟨conn, answer, rfl⟩
          · exact ih h
        · exact ⟨conn, answer, List.mem_singleton.mp h⟩
      · cases h

/-! ### The log of one connection -/

/-- A call of `process` that leaves a response and asks for the end. -/
def asksToClose : ConnEvent → Bool
  | .process _ response => response.closed && 0 < response.outlen
  | _ => false

/-- The application has left a response and asked for the end. -/
def Asked (log : List ConnEvent) : Prop := ∃ event ∈ log, asksToClose event = true

instance (log : List ConnEvent) : Decidable (Asked log) :=
  inferInstanceAs (Decidable (∃ event ∈ log, asksToClose event = true))

/-- A response with which the application asked for the end is not sent. -/
def Owes (log : List ConnEvent) : Prop :=
  ∃ before packet response after, log = before ++ .process packet response :: after ∧
    response.closed = true ∧ 0 < response.outlen ∧ sent after ≠ response.out.take response.outlen

/-- The descriptor is closed only after the response is sent, or a `write` has failed. -/
def ClosesGracefully (log : List ConnEvent) (failed : Prop) : Prop :=
  ∀ before packet response after rest,
    log = before ++ .process packet response :: (after ++ .closeFd :: rest) →
    response.closed = true → 0 < response.outlen →
    sent after = response.out.take response.outlen ∨ failed

/-- The last event of a list that is split in front of it. -/
theorem snoc_eq_append_cons {α : Type} {l before after : List α} {e x : α}
    (h : l ++ [e] = before ++ x :: after) :
    (after = [] ∧ e = x ∧ l = before) ∨
      ∃ after', after = after' ++ [e] ∧ l = before ++ x :: after' := by
  rcases List.eq_nil_or_concat after with rfl | ⟨after', last, rfl⟩
  · obtain ⟨hl, he⟩ := List.append_inj' h rfl
    exact Or.inl ⟨rfl, List.singleton_inj.mp he, hl⟩
  · have hsplit : l ++ [e] = (before ++ x :: after') ++ [last] := by simpa using h
    obtain ⟨hl, he⟩ := List.append_inj' hsplit rfl
    rw [List.singleton_inj.mp he]
    exact Or.inr ⟨after', List.concat_eq_append, hl⟩

/-- After such a response the connection is marked, and what is not sent is in its buffer. -/
theorem SessionRun.asked {log : List ConnEvent} {conn : Option NetConn}
    (h : SessionRun FromStart log conn) :
    match conn with
    | some c => ∀ before packet response after, log = before ++ .process packet response :: after →
        response.closed = true → 0 < response.outlen →
        c.closed = true ∧ response.out.take response.outlen = sent after ++ unsent c
    | none => True := by
  induction h with
  | opened fd =>
      intro before packet response after hlog
      cases before with
      | nil => cases hlog
      | cons first before =>
          have := (List.cons.inj hlog).2
          simp at this
  | read run idle answer ih =>
      intro before packet response after hlog hclosed hlen
      rcases snoc_eq_append_cons hlog with ⟨-, he, -⟩ | ⟨after', -, hlog⟩
      · cases he
      · -- a connection that is read is not marked
        have hmarked := (ih before packet response after' hlog hclosed hlen).1
        rw [idle.2] at hmarked
        cases hmarked
  | @process log conn run idle packet' received response' allowed ih =>
      intro before packet response after hlog hclosed hlen
      rcases snoc_eq_append_cons hlog with ⟨rfl, he, -⟩ | ⟨after', -, hlog⟩
      · cases he
        refine ⟨hclosed, ?_⟩
        rw [unsent, NetConn.respond]
        simp [allowed.1, sent]
      · have hmarked := (ih before packet response after' hlog hclosed hlen).1
        rw [idle.2] at hmarked
        cases hmarked
  | @write log conn run pending answer ih =>
      intro before packet response after hlog hclosed hlen
      rcases snoc_eq_append_cons hlog with ⟨-, he, -⟩ | ⟨after', hafter, hold⟩
      · cases he
      · obtain ⟨hmarked, hbytes⟩ := ih before packet response after' hold hclosed hlen
        refine ⟨by rw [NetConn.wrote, hmarked]; rfl, ?_⟩
        rw [hafter, hbytes, unsent_eq conn answer, sent_append, List.append_assoc]
  | @flushed log conn run done ih =>
      intro before packet response after hlog hclosed hlen
      obtain ⟨hmarked, hbytes⟩ := ih before packet response after hlog hclosed hlen
      refine ⟨hmarked, ?_⟩
      rw [hbytes, unsent_of_le done]
      rfl
  | unarmed run ih =>
      intro before packet response after hlog hclosed hlen
      exact ⟨rfl, (ih before packet response after hlog hclosed hlen).2⟩
  | closed run ending ih => trivial

/-- A connection that owes bytes is marked, and has them in its buffer. -/
theorem SessionRun.owes {log : List ConnEvent} {conn : NetConn}
    (h : SessionRun FromStart log (some conn)) (howes : Owes log) :
    conn.closed = true ∧ unsent conn ≠ [] := by
  obtain ⟨before, packet, response, after, hlog, hclosed, hlen, hne⟩ := howes
  obtain ⟨hmarked, hbytes⟩ := h.asked before packet response after hlog hclosed hlen
  refine ⟨hmarked, fun hnil => hne ?_⟩
  rw [hbytes, hnil, List.append_nil]

theorem Owes.asked {log : List ConnEvent} (h : Owes log) : Asked log := by
  obtain ⟨before, packet, response, after, rfl, hclosed, hlen, -⟩ := h
  refine ⟨.process packet response, by simp, ?_⟩
  rw [asksToClose, hclosed, decide_eq_true hlen]
  rfl

/-- A call that neither sends nor leaves a response. -/
theorem Owes.of_quiet {log : List ConnEvent} {event : ConnEvent} (h : Owes (log ++ [event]))
    (hquiet : asksToClose event = false) (hsent : sentBy event = []) : Owes log := by
  obtain ⟨before, packet, response, after, hlog, hclosed, hlen, hne⟩ := h
  rcases snoc_eq_append_cons hlog with ⟨-, rfl, -⟩ | ⟨after', rfl, rfl⟩
  · rw [asksToClose, hclosed, decide_eq_true hlen] at hquiet
    cases hquiet
  · refine ⟨before, packet, response, after', rfl, hclosed, hlen, fun heq => hne ?_⟩
    have hlast : sent [event] = sentBy event := List.append_nil _
    rw [sent_append, hlast, hsent, List.append_nil, heq]

/-- The calls of a flush leave no response. -/
theorem asked_of_flush (answers : List WriteAnswer) (conn : NetConn) {log : List ConnEvent}
    (h : Asked (log ++ (flushConn answers conn).2)) : Asked log := by
  obtain ⟨event, hmem, hasks⟩ := h
  rcases List.mem_append.mp hmem with hmem | hmem
  · exact ⟨event, hmem, hasks⟩
  · obtain ⟨conn', answer, rfl⟩ := mem_flushConn hmem
    cases hasks

/-! ### Runs that collect the results of `write` -/

/-- A worker, and what `write` has returned on its connections so far. -/
structure Traced where
  worker : Worker
  answered : List (Addr × WriteAnswer)

/-- The results of `write` in one step of a worker. -/
def stepAnswers (w : Worker) (turn : Turn) : List (Addr × WriteAnswer) :=
  match w.pc with
  | .write (a :: _) =>
      match w.conns.get? a with
      | some conn => (flushAnswers turn.answers.writes conn).map (a, ·)
      | none => []
  | _ => []

/-- One step of a worker, with the results of `write` in it. -/
def tracedStep (s : Traced) (turn : Turn) : Except Fault Traced := do
  let worker ← loopStep s.worker turn
  return { worker, answered := s.answered ++ stepAnswers s.worker turn }

/-- When the step flushes a response with which the application asked for the end, the flush drains.
-/
def DrainsAsked (s : Traced) (turn : Turn) : Prop :=
  match s.worker.pc with
  | .write (a :: _) =>
      match s.worker.conns.get? a with
      | some conn =>
          Asked (callsOn s.worker.log a) →
            Drains turn.answers.writes (conn.outlen - conn.outoff)
      | none => True
  | _ => True

instance (s : Traced) (turn : Turn) : Decidable (DrainsAsked s turn) := by
  unfold DrainsAsked
  split
  · split
    · infer_instance
    · exact isTrue trivial
  · exact isTrue trivial

/-- A connection that is about to be closed, or is closed, owes nothing, or a `write` on it has
failed. -/
structure Settled (s : Traced) : Prop where
  closing : ∀ a, (a, Task.close) ∈ agenda s.worker.pc s.worker.ctx →
    Owes (callsOn s.worker.log a) → (a, .error) ∈ s.answered
  closed : ∀ a before, callsOn s.worker.log a = before ++ [.closed, .closeFd] → Owes before →
    (a, .error) ∈ s.answered

/-! ### What a step adds to `closes_que` -/

section Phases
variable {w w' : Worker} {a b : Addr}

theorem pushQue_eq_ok {α : Type} {queuesize : Nat} {que que' : List α} {entry : α} :
    pushQue queuesize que entry = .ok que' ↔ que.length < queuesize ∧ que' = que ++ [entry] := by
  rw [pushQue]
  split
  case isTrue hroom => simp [hroom, eq_comm]
  case isFalse hfull => simp [hfull]

theorem get?_of_readConn {conn : NetConn} (h : w.readConn a = .ok conn) :
    w.conns.get? a = some conn := by
  rw [Worker.readConn] at h
  cases hget : w.conns.get? a with
  | none =>
      rw [hget] at h
      cases h
  | some c =>
      rw [hget] at h
      rw [Except.ok.inj h]

theorem pushRead_eq_ok (h : w.pushRead a = .ok w') :
    w' = { w with ctx := { w.ctx with preadQue := w.ctx.preadQue ++ [a] } } := by
  obtain ⟨que, hque, h⟩ := bind_eq_ok.mp h
  cases h
  rw [(pushQue_eq_ok.mp hque).2]

theorem pushIn_eq_ok {packet : List UInt8} (h : w.pushIn a packet = .ok w') :
    w' = { w with ctx := { w.ctx with insQue := w.ctx.insQue ++ [(a, packet)] } } := by
  obtain ⟨que, hque, h⟩ := bind_eq_ok.mp h
  cases h
  rw [(pushQue_eq_ok.mp hque).2]

theorem pushAttach_eq_ok (h : w.pushAttach a = .ok w') :
    w' = { w with ctx := { w.ctx with attachsQue := w.ctx.attachsQue ++ [a] } } := by
  obtain ⟨que, hque, h⟩ := bind_eq_ok.mp h
  cases h
  rw [(pushQue_eq_ok.mp hque).2]

theorem pushOut_eq_ok (h : w.pushOut a = .ok w') :
    w' = { w with ctx := { w.ctx with outsQue := w.ctx.outsQue ++ [a] } } := by
  obtain ⟨que, hque, h⟩ := bind_eq_ok.mp h
  cases h
  rw [(pushQue_eq_ok.mp hque).2]

theorem pushClose_eq_ok (h : w.pushClose a = .ok w') :
    w' = { w with ctx := { w.ctx with closesQue := w.ctx.closesQue ++ [a] } } := by
  obtain ⟨que, hque, h⟩ := bind_eq_ok.mp h
  cases h
  rw [(pushQue_eq_ok.mp hque).2]

theorem mem_tasks_close {reads outs closes : List Addr} {ins : List (Addr × List UInt8)} :
    (b, Task.close) ∈ tasks reads ins outs closes ↔ b ∈ closes := by
  simp [tasks]

/-- The end of the loop body of `ts_accept`. -/
theorem queueEvent_effect (h : queueEvent w a = .ok w') :
    w'.conns = w.conns ∧ w'.log = w.log ∧
      (w'.ctx.closesQue = w.ctx.closesQue ∨ w'.ctx.closesQue = w.ctx.closesQue ++ [a] ∧
        ∃ conn, w.conns.get? a = some conn ∧ conn.outlen = 0) := by
  obtain ⟨conn, hread, h⟩ := bind_eq_ok.mp h
  have hlive := get?_of_readConn hread
  split at h
  · rw [pushAttach_eq_ok h]
    exact ⟨rfl, rfl, Or.inl rfl⟩
  split at h
  · rw [pushOut_eq_ok h]
    exact ⟨rfl, rfl, Or.inl rfl⟩
  next hout =>
    split at h
    · rw [pushClose_eq_ok h]
      exact ⟨rfl, rfl, Or.inr ⟨rfl, conn, hlive, Nat.eq_zero_of_not_pos hout⟩⟩
    · rw [pushRead_eq_ok h]
      exact ⟨rfl, rfl, Or.inl rfl⟩

/-- What `ts_accept` adds: at most the call of `opened`, and a connection without a response to
`closes_que`. -/
theorem tsAccept_effect {epfds : List Fd} {k k' : Kernel} {fd : Fd} {answer : AcceptAnswer}
    (h : tsAccept epfds w k fd answer = .ok (w', k')) :
    (w'.log = w.log ∨ ∃ a, w'.log = w.log ++ [(a, .opened)]) ∧
      ∀ b ∈ w'.ctx.closesQue,
        b ∈ w.ctx.closesQue ∨ ∃ conn, w'.conns.get? b = some conn ∧ conn.outlen = 0 := by
  -- a connection that is queued, in a worker with the same `closes_que`
  have hqueued : ∀ {v v' : Worker} {a : Addr}, queueEvent v a = .ok v' →
      v.ctx.closesQue = w.ctx.closesQue → ∀ b ∈ v'.ctx.closesQue,
        b ∈ w.ctx.closesQue ∨ ∃ conn, v'.conns.get? b = some conn ∧ conn.outlen = 0 := by
    intro v v' a hqueue hcloses b hb
    obtain ⟨hconns, -, hsame | ⟨hmore, conn, hlive, hout⟩⟩ := queueEvent_effect hqueue
    · exact Or.inl (hcloses ▸ hsame ▸ hb)
    · rw [hmore, hcloses] at hb
      rcases List.mem_append.mp hb with hb | hb
      · exact Or.inl hb
      · rw [List.mem_singleton.mp hb, hconns]
        exact Or.inr ⟨conn, hlive, hout⟩
  rw [tsAccept] at h
  split at h
  · cases h
    exact ⟨Or.inl rfl, fun b hb => Or.inl hb⟩
  obtain ⟨found, -, h⟩ := bind_eq_ok.mp h
  cases found with
  | some addr =>
      obtain ⟨v, hqueue, h⟩ := bind_eq_ok.mp h
      cases h
      exact ⟨Or.inl (queueEvent_effect hqueue).2.1, hqueued hqueue rfl⟩
  | none =>
      simp only at h
      split at h
      · cases h
        exact ⟨Or.inl rfl, fun b hb => Or.inl hb⟩
      · rw [openConn] at h
        cases halloc : w.conns.alloc (connNew fd) with
        | mk conns addr =>
            rw [halloc] at h
            cases addr with
            | none =>
                cases h
                exact ⟨Or.inl rfl, fun b hb => Or.inl hb⟩
            | some addr =>
                obtain ⟨⟨hmap, node, rest⟩, -, h⟩ := bind_eq_ok.mp h
                obtain ⟨v, hqueue, h⟩ := bind_eq_ok.mp h
                cases h
                exact ⟨Or.inr ⟨addr, (queueEvent_effect hqueue).2.1⟩, hqueued hqueue rfl⟩

/-- `ts_read` reads the connection, and can queue it. -/
theorem tsRead_effect {answer : ReadAnswer} (h : tsRead w a answer = .ok w') :
    w'.conns = w.conns ∧ w'.log = w.log ++ [(a, .read answer)] ∧
      (w'.ctx.closesQue = w.ctx.closesQue ∨ w'.ctx.closesQue = w.ctx.closesQue ++ [a]) := by
  obtain ⟨conn, -, h⟩ := bind_eq_ok.mp h
  cases answer with
  | again =>
      cases h
      exact ⟨rfl, rfl, Or.inl rfl⟩
  | error =>
      rw [pushClose_eq_ok h]
      exact ⟨rfl, rfl, Or.inr rfl⟩
  | data bytes =>
      rw [handleRead] at h
      split at h
      · rw [pushClose_eq_ok h]
        exact ⟨rfl, rfl, Or.inr rfl⟩
      · rw [pushIn_eq_ok h]
        exact ⟨rfl, rfl, Or.inl rfl⟩

/-- `ts_process` queues a connection in `closes_que` only without a response. -/
theorem tsProcess_effect {packet : List UInt8} {response : Response}
    (h : tsProcess w a packet response = .ok w') :
    ∃ conn, w.conns.get? a = some conn ∧ w'.conns = w.conns.put a (conn.respond response) ∧
      w'.log = w.log ++ [(a, .process packet response)] ∧
      (w'.ctx.closesQue = w.ctx.closesQue ∨
        w'.ctx.closesQue = w.ctx.closesQue ++ [a] ∧ response.outlen = 0) := by
  obtain ⟨conn, hread, h⟩ := bind_eq_ok.mp h
  refine ⟨conn, get?_of_readConn hread, ?_⟩
  simp only at h
  split at h
  · cases h
    exact ⟨rfl, rfl, Or.inl rfl⟩
  split at h
  · rw [pushOut_eq_ok h]
    exact ⟨rfl, rfl, Or.inl rfl⟩
  next hout =>
    split at h
    · rw [pushClose_eq_ok h]
      exact ⟨rfl, rfl, Or.inr ⟨rfl, Nat.eq_zero_of_not_pos hout⟩⟩
    · cases h
      exact ⟨rfl, rfl, Or.inl rfl⟩

/-- `ts_write` flushes the connection, and can queue it. -/
theorem tsWrite_effect {k k' : Kernel} {answers : Answers}
    (h : tsWrite w k a answers = .ok (w', k')) :
    ∃ conn, w.conns.get? a = some conn ∧
      w'.log = w.log ++ (flushConn answers.writes conn).2.map (a, ·) ∧
      (w'.ctx.closesQue = w.ctx.closesQue ∨
        w'.ctx.closesQue = w.ctx.closesQue ++ [a] ∧
          w'.conns = w.conns.put a (flushConn answers.writes conn).1) := by
  obtain ⟨conn, hread, h⟩ := bind_eq_ok.mp h
  refine ⟨conn, get?_of_readConn hread, ?_⟩
  simp only at h
  split at h
  · obtain ⟨v, hpush, h⟩ := bind_eq_ok.mp h
    cases h
    rw [pushClose_eq_ok hpush]
    exact ⟨rfl, Or.inr ⟨rfl, rfl⟩⟩
  · split at h
    · cases h
      exact ⟨rfl, Or.inl rfl⟩
    · cases h
      exact ⟨rfl, Or.inl rfl⟩

/-- `ts_close` ends the connection. -/
theorem tsClose_effect {k k' : Kernel} (h : tsClose w k a = .ok (w', k')) :
    w'.log = w.log ++ [(a, .closed), (a, .closeFd)] := by
  obtain ⟨conn, -, h⟩ := bind_eq_ok.mp h
  obtain ⟨⟨hmap, code, value⟩, -, h⟩ := bind_eq_ok.mp h
  cases h
  rfl

end Phases

/-! ### The step lemma -/

variable {outcomes : MallocOutcomes}

/-- A live connection that is not marked, or has nothing to send, owes nothing. -/
theorem not_owes {pc : WorkerPc} {w : Worker} {a : Addr} {conn : NetConn}
    (h : InvAt FromStart outcomes pc w) (hlive : w.conns.get? a = some conn)
    (hconn : conn.closed = false ∨ conn.outlen = 0) : ¬ Owes (callsOn w.log a) := by
  intro howes
  obtain ⟨hmarked, hne⟩ := (h.core.session hlive).owes howes
  rcases hconn with hopen | hout
  · rw [hopen] at hmarked
    cases hmarked
  · exact hne (unsent_of_le (hout ▸ Nat.zero_le _))

/-- Calls that close no descriptor leave the connections that are closed. -/
theorem closed_of_record {log : Log} {a b : Addr} {events before : List ConnEvent}
    (hevents : .closeFd ∉ events)
    (h : callsOn (log ++ events.map fun event => (a, event)) b = before ++ [.closed, .closeFd]) :
    callsOn log b = before ++ [.closed, .closeFd] := by
  by_cases hb : b = a
  · subst hb
    rw [callsOn_record] at h
    rcases List.eq_nil_or_concat events with rfl | ⟨init, last, rfl⟩
    · rwa [List.append_nil] at h
    · -- the last call would be the one that closes the descriptor
      have hsplit : (callsOn log b ++ init) ++ [last] = (before ++ [.closed]) ++ [.closeFd] := by
        simpa using h
      have hlast := List.singleton_inj.mp (List.append_inj' hsplit rfl).2
      exact absurd (by simp [hlast]) hevents
  · rwa [callsOn_record_of_ne log hb] at h

/-- A step that closes no descriptor, and the connections that it leaves to `ts_close`. -/
theorem Settled.next {s : Traced} (h : Settled s) (a : Addr) (events : List ConnEvent)
    {w' : Worker} {more : List (Addr × WriteAnswer)}
    (hlog : w'.log = s.worker.log ++ events.map fun event => (a, event))
    (hevents : .closeFd ∉ events)
    (hclosing : ∀ b, (b, Task.close) ∈ agenda w'.pc w'.ctx → Owes (callsOn w'.log b) →
      (b, Task.close) ∈ agenda s.worker.pc s.worker.ctx ∧ Owes (callsOn s.worker.log b) ∨
        (b, .error) ∈ more) :
    Settled { worker := w', answered := s.answered ++ more } where
  closing b hmem howes := by
    rcases hclosing b hmem howes with ⟨hold, howed⟩ | hnew
    · exact List.mem_append_left _ (h.closing b hold howed)
    · exact List.mem_append_right _ hnew
  closed b before hcalls howes := by
    rw [hlog] at hcalls
    exact List.mem_append_left _ (h.closed b before (closed_of_record hevents hcalls) howes)

/-- A call of a worker that is quiet changes nothing about what is owed. -/
theorem owes_of_record {log : Log} {a b : Addr} {event : ConnEvent}
    (h : Owes (callsOn (log ++ [(a, event)]) b)) (hquiet : asksToClose event = false)
    (hsent : sentBy event = []) : Owes (callsOn log b) := by
  by_cases hb : b = a
  · subst hb
    have hrecord := callsOn_record log b [event]
    rw [List.map_singleton] at hrecord
    rw [hrecord] at h
    exact h.of_quiet hquiet hsent
  · have hrecord := callsOn_record_of_ne log hb [event]
    rw [List.map_singleton] at hrecord
    rwa [hrecord] at h

section Steps
variable {w w₁ : Worker} {answered more : List (Addr × WriteAnswer)} {a b : Addr}

/-- The connections to close, after a step that queues at most the one that it is about. -/
theorem mem_closes {que que' : List Addr} {P : Prop} (h : que' = que ∨ que' = que ++ [a] ∧ P)
    (hb : b ∈ que') : b ∈ que ∨ b = a ∧ P := by
  rcases h with rfl | ⟨rfl, hP⟩
  · exact Or.inl hb
  · exact (List.mem_append.mp hb).imp id fun hb => ⟨List.mem_singleton.mp hb, hP⟩

/-- The connection that a loop holds is not one of those that are left to do. -/
theorem Held.ne {Allowed : Response → Prop} {pc : WorkerPc} {ctx : TsContext} {conns : Heap NetConn}
    {log : Log} {task : Task} (h : Held Allowed outcomes pc ctx conns log a)
    (hb : (b, task) ∈ agenda pc ctx) : b ≠ a := by
  rintro rfl
  exact h.free (List.mem_map_of_mem hb)

/-- `ts_accept` queues no connection that has something to send. -/
theorem Settled.accept {epfds : List Fd} {fd : Fd} {events : List Fd} {k k' : Kernel}
    {answer : AcceptAnswer} (h : Settled ⟨w, answered⟩) (hpc : w.pc = .accept (fd :: events))
    (hinv' : InvAt FromStart outcomes (.accept events) { w₁ with pc := .accept events })
    (hrun : tsAccept epfds w k fd answer = .ok (w₁, k')) :
    Settled ⟨{ w₁ with pc := .accept events }, answered ++ more⟩ := by
  obtain ⟨hlog, hcloses⟩ := tsAccept_effect hrun
  -- a connection without a response owes nothing
  have hclosing : ∀ b, (b, Task.close) ∈ agenda (.accept events) w₁.ctx →
      Owes (callsOn w₁.log b) → (b, Task.close) ∈ agenda w.pc w.ctx := by
    intro b hmem howes
    rcases hcloses b (mem_tasks_close.mp hmem) with hold | ⟨conn, hlive, hout⟩
    · rw [hpc]
      exact mem_tasks_close.mpr hold
    · exact absurd howes (not_owes hinv' hlive (Or.inr hout))
  rcases hlog with hlog | ⟨a, hlog⟩
  · refine h.next 0 [] (by simp [hlog]) List.not_mem_nil
      fun b hmem howes => Or.inl ⟨hclosing b hmem howes, ?_⟩
    rwa [hlog] at howes
  · refine h.next a [.opened] (by simp [hlog]) (by simp)
      fun b hmem howes => Or.inl ⟨hclosing b hmem howes, ?_⟩
    simp only [hlog] at howes
    exact owes_of_record howes rfl rfl

/-- `ts_read` queues no connection that is marked. -/
theorem Settled.read {que : List Addr} {answer : ReadAnswer} (h : Settled ⟨w, answered⟩)
    (hpc : w.pc = .read (a :: que)) (hinv : InvAt FromStart outcomes (.read (a :: que)) w)
    (hinv' : InvAt FromStart outcomes (.read que) { w₁ with pc := .read que })
    (hrun : tsRead w a answer = .ok w₁) :
    Settled ⟨{ w₁ with pc := .read que }, answered ++ more⟩ := by
  obtain ⟨hconns, hlog, hcloses⟩ := tsRead_effect hrun
  obtain ⟨-, conn, hlive, hidle⟩ := hinv.pop (.read que) rfl rfl
  refine h.next a [.read answer] (by simp [hlog]) (by simp)
    fun b hmem howes => Or.inl ⟨?_, ?_⟩
  · rcases mem_closes (hcloses.imp id fun hmore => ⟨hmore, trivial⟩) (mem_tasks_close.mp hmem)
      with hb | ⟨rfl, -⟩
    · simp only [hpc]
      exact mem_tasks_close.mpr hb
    · -- a connection that is read is not marked
      exact absurd howes (not_owes hinv' (hconns ▸ hlive) (Or.inl hidle.2))
  · simp only [hlog] at howes
    exact owes_of_record howes rfl rfl

/-- `ts_process` queues a connection only without a response. -/
theorem Settled.process {packet : List UInt8} {que : List (Addr × List UInt8)} {response : Response}
    (h : Settled ⟨w, answered⟩) (hpc : w.pc = .process ((a, packet) :: que))
    (hinv : InvAt FromStart outcomes (.process ((a, packet) :: que)) w)
    (hinv' : InvAt FromStart outcomes (.process que) { w₁ with pc := .process que })
    (hrun : tsProcess w a packet response = .ok w₁) :
    Settled ⟨{ w₁ with pc := .process que }, answered ++ more⟩ := by
  obtain ⟨conn, hlive, hconns, hlog, hcloses⟩ := tsProcess_effect hrun
  obtain ⟨hheld, -⟩ := hinv.pop (.process que) rfl rfl
  refine h.next a [.process packet response] (by simp [hlog]) (by simp) fun b hmem howes => ?_
  rcases mem_closes hcloses (mem_tasks_close.mp hmem) with hb | ⟨rfl, hout⟩
  · -- the loop holds `a`, so the connection is another one
    have hne : b ≠ a := hheld.ne (mem_tasks_close.mpr hb)
    have hcalls := callsOn_record_of_ne w.log hne [.process packet response]
    rw [List.map_singleton] at hcalls
    simp only [hlog, hcalls] at howes
    refine Or.inl ⟨?_, howes⟩
    simp only [hpc]
    exact mem_tasks_close.mpr hb
  · have hlive' : w₁.conns.get? b = some (conn.respond response) := by
      rw [hconns]
      exact Heap.get?_put_self hlive _
    exact absurd howes (not_owes hinv' hlive' (Or.inr hout))

/-- `ts_write` queues the connection after a flush. If the flush was for a response with which the
application asked for the end, then it has drained. -/
theorem Settled.write {que : List Addr} {turn : Turn} {k k' : Kernel} (h : Settled ⟨w, answered⟩)
    (hpc : w.pc = .write (a :: que)) (hinv : InvAt FromStart outcomes (.write (a :: que)) w)
    (hinv' : InvAt FromStart outcomes (.write que) { w₁ with pc := .write que })
    (hdrains : DrainsAsked ⟨w, answered⟩ turn)
    (hrun : tsWrite w k a turn.answers = .ok (w₁, k')) :
    Settled ⟨{ w₁ with pc := .write que }, answered ++ stepAnswers w turn⟩ := by
  obtain ⟨conn, hlive, hlog, hcloses⟩ := tsWrite_effect hrun
  rw [DrainsAsked] at hdrains
  simp only [hpc, hlive] at hdrains
  obtain ⟨hheld, -⟩ := hinv.pop (.write que) rfl rfl
  have hmore : stepAnswers w turn = (flushAnswers turn.answers.writes conn).map (a, ·) := by
    rw [stepAnswers, hpc]
    simp only [hlive]
  rw [hmore]
  refine h.next _ _ hlog ?_ fun b hmem howes => ?_
  · intro hclose
    obtain ⟨conn', answer, heq⟩ := mem_flushConn hclose
    cases heq
  rcases mem_closes hcloses (mem_tasks_close.mp hmem) with hb | ⟨rfl, hconns⟩
  · have hne : b ≠ a := hheld.ne (mem_tasks_close.mpr hb)
    simp only [hlog, callsOn_record_of_ne w.log hne] at howes
    refine Or.inl ⟨?_, howes⟩
    simp only [hpc]
    exact mem_tasks_close.mpr hb
  · have hlive' : w₁.conns.get? b = some (flushConn turn.answers.writes conn).1 := by
      rw [hconns]
      exact Heap.get?_put_self hlive _
    have hunsent := ((hinv'.core.session hlive').owes howes).2
    have hasked : Asked (callsOn w.log b) := by
      have hasked := howes.asked
      simp only [hlog, callsOn_record] at hasked
      exact asked_of_flush _ _ hasked
    have hlength := (hinv.core.session hlive).delivers.2.1
    rcases (flush_finished_iff _ conn hlength).mpr (hdrains hasked) with hnil | herror
    · exact absurd hnil hunsent
    · exact Or.inr (List.mem_map_of_mem herror)

/-- `ts_close` closes a connection that it has found in `closes_que`. -/
theorem Settled.close {que : List Addr} {k k' : Kernel} (h : Settled ⟨w, answered⟩)
    (hpc : w.pc = .close (a :: que)) (hinv : InvAt FromStart outcomes (.close (a :: que)) w)
    (hrun : tsClose w k a = .ok (w₁, k')) :
    Settled ⟨{ w₁ with pc := .close que }, answered ++ more⟩ := by
  have hlog := tsClose_effect hrun
  have htask : ∀ {b : Addr}, b ∈ a :: que → (b, Task.close) ∈ agenda w.pc w.ctx := by
    intro b hb
    rw [hpc]
    exact mem_tasks_close.mpr hb
  obtain ⟨hheld, -⟩ := hinv.pop (.close que) rfl rfl
  have hother : ∀ {b : Addr}, b ≠ a → callsOn w₁.log b = callsOn w.log b := by
    intro b hb
    rw [hlog]
    exact callsOn_record_of_ne w.log hb [.closed, .closeFd]
  constructor
  · intro b hmem howes
    have hne : b ≠ a := hheld.ne hmem
    simp only [hother hne] at howes
    have hque := List.mem_cons_of_mem a (mem_tasks_close.mp hmem)
    exact List.mem_append_left _ (h.closing b (htask hque) howes)
  · intro b before hcalls howes
    by_cases hb : b = a
    · -- the connection that is closed in this step
      subst hb
      have hrecord : callsOn w₁.log b = callsOn w.log b ++ [.closed, .closeFd] := by
        rw [hlog]
        exact callsOn_record w.log b [.closed, .closeFd]
      simp only [hrecord] at hcalls
      rw [← (List.append_inj' hcalls rfl).1] at howes
      exact List.mem_append_left _ (h.closing b (htask List.mem_cons_self) howes)
    · simp only [hother hb] at hcalls
      exact List.mem_append_left _ (h.closed b before hcalls howes)

end Steps

/-- The step lemma: one case for each thing that a step can do. -/
theorem Settled.step {s s' : Traced} {turn : Turn} (h : Settled s)
    (hinv : InvAt FromStart outcomes s.worker.pc s.worker)
    (hinv' : InvAt FromStart outcomes s'.worker.pc s'.worker) (hdrains : DrainsAsked s turn)
    (hstep : tracedStep s turn = .ok s') : Settled s' := by
  obtain ⟨w', hloop, hs'⟩ := bind_eq_ok.mp hstep
  cases hs'
  obtain ⟨⟨next, k⟩, hworker, hnext⟩ := bind_eq_ok.mp hloop
  cases hnext
  obtain ⟨w, answered⟩ := s
  simp only at hinv hinv' hworker ⊢
  cases workerStep_cases hworker with
  | goto hagenda hevents =>
      refine h.next 0 [] (by simp) List.not_mem_nil fun b hmem howes => ?_
      rw [hagenda] at hmem
      exact Or.inl ⟨hmem, howes⟩
  | start hstart hnext =>
      refine h.next 0 [] (by simp) List.not_mem_nil fun b hmem howes => ?_
      rcases hnext with rfl | rfl <;> cases hmem
  | wait hpc hwait =>
      refine h.next 0 [] (by simp) List.not_mem_nil fun b hmem howes => ?_
      cases mem_tasks_close.mp hmem
  | accept hpc hrun => exact h.accept hpc hinv' hrun
  | read hpc hrun => exact h.read hpc (hpc ▸ hinv) hinv' hrun
  | process hpc hrun => exact h.process hpc (hpc ▸ hinv) hinv' hrun
  | write hpc hrun => exact h.write hpc (hpc ▸ hinv) hinv' hdrains hrun
  | close hpc hrun => exact h.close hpc (hpc ▸ hinv) hrun

/-! ### Runs -/

/-- In a log that follows the protocol, everything in front of the `close` of the descriptor is in
front of the call of `closed`. -/
theorem closesGracefully_of_settled {log : List ConnEvent} {failed : Prop}
    (hprotocol : log = [] ∨ FollowsProtocol log)
    (h : ∀ before, log = before ++ [.closed, .closeFd] → Owes before → failed) :
    ClosesGracefully log failed := by
  intro before packet response after rest hlog hclosed hlen
  have hmem : ConnEvent.closeFd ∈ log := by
    rw [hlog]
    simp
  have hend : ∃ talk, Talks talk ∧ log = talk ++ [.closed, .closeFd] := by
    rcases hprotocol with rfl | htalks | hend
    · cases hmem
    · obtain ⟨calls, hcalls, rfl⟩ := htalks
      rcases List.mem_cons.mp hmem with heq | hmem
      · cases heq
      · exact absurd rfl (hcalls _ hmem).2.2
    · exact hend
  obtain ⟨talk, ⟨calls, hcalls, htalk⟩, hsplit⟩ := hend
  -- the `close` of the descriptor is the last call, and `closed` is in front of it
  have hlast : (talk ++ [.closed]) ++ [.closeFd]
      = (before ++ .process packet response :: after) ++ .closeFd :: rest := by
    rw [hlog] at hsplit
    simpa using hsplit.symm
  rcases snoc_eq_append_cons hlast with ⟨-, -, hfront⟩ | ⟨rest', -, hfront⟩
  · rcases snoc_eq_append_cons hfront with ⟨-, heq, -⟩ | ⟨after', rfl, heq⟩
    · cases heq
    · by_cases hsent : sent (after' ++ [.closed]) = response.out.take response.outlen
      · exact Or.inl hsent
      · refine Or.inr (h talk hsplit ⟨before, packet, response, after', heq, hclosed, hlen, ?_⟩)
        have hquiet : sent [ConnEvent.closed] = [] := rfl
        rwa [sent_append, hquiet, List.append_nil] at hsent
  · -- there is no other call that closes it
    have hclose : ConnEvent.closeFd ∈ talk ++ [.closed] := by
      rw [hfront]
      simp
    rw [htalk] at hclose
    rcases List.mem_append.mp hclose with hclose | hclose
    · rcases List.mem_cons.mp hclose with heq | hclose
      · cases heq
      · exact absurd rfl (hcalls _ hclose).2.2
    · cases List.mem_singleton.mp hclose

/-- Every step of a worker returns, and the collected results follow it. -/
theorem tracedStep_ok {s : Traced} {turn : Turn}
    (hinv : InvAt FromStart outcomes s.worker.pc s.worker) (hturn : LegalTurn FromStart turn) :
    ∃ s', tracedStep s turn = .ok s' ∧ InvAt FromStart outcomes s'.worker.pc s'.worker := by
  obtain ⟨w', hstep, hinv'⟩ := loopStep_ok (fun _ hresponse => hresponse.2.2) s.worker turn hinv
    hturn
  exact ⟨{ worker := w', answered := s.answered ++ stepAnswers s.worker turn },
    by rw [tracedStep, hstep]; rfl, hinv'⟩

/-- A new worker has no connection yet. -/
theorem settled_init (epfd wakeFd listenFd : Fd) (index queuesize nthreads : Nat)
    (outcomes : MallocOutcomes) :
    Settled ⟨Worker.init epfd wakeFd listenFd index queuesize nthreads outcomes, []⟩ where
  closing _ hmem := absurd hmem List.not_mem_nil
  closed a before hcalls := by
    have hnil : callsOn ([] : Log) a = [] := rfl
    rw [Worker.init, hnil] at hcalls
    simp at hcalls

/-- The run lemma: in a run whose flushes of such responses drain, no connection that is closed owes
bytes, up to an error of `write`. -/
theorem run_settled {s s' : Traced} {turns : List Turn}
    (hinv : InvAt FromStart outcomes s.worker.pc s.worker) (h : Settled s)
    (hturns : ∀ turn ∈ turns, LegalTurn FromStart turn)
    (hdrains : Guarded tracedStep DrainsAsked s turns) (hrun : run tracedStep s turns = .ok s') :
    InvAt FromStart outcomes s'.worker.pc s'.worker ∧ Settled s' := by
  refine run_invariant
    (fun s => InvAt FromStart outcomes s.worker.pc s.worker ∧ Settled s) ?_ turns s s' ⟨hinv, h⟩
    ((guarded_of_forall hturns s).and hdrains) hrun
  rintro s turn s₁ ⟨hinv, h⟩ ⟨hturn, hdrains⟩ hstep
  obtain ⟨s₂, hstep', hinv'⟩ := tracedStep_ok hinv hturn
  obtain rfl : s₁ = s₂ := Except.ok.inj (hstep.symm.trans hstep')
  exact ⟨hinv', h.step hinv hinv' hdrains hstep⟩

/-- In every run in which each flush of a response with which the application asked for the end
drains, every connection is closed only after such a response is sent, or after an error of
`write`. -/
theorem graceful_close_drains (epfd wakeFd listenFd : Fd) (index queuesize nthreads : Nat)
    (outcomes : MallocOutcomes) (turns : List Turn) (s : Traced)
    (hturns : ∀ turn ∈ turns, LegalTurn FromStart turn)
    (hdrains : Guarded tracedStep DrainsAsked
      ⟨Worker.init epfd wakeFd listenFd index queuesize nthreads outcomes, []⟩ turns)
    (hrun : run tracedStep
      ⟨Worker.init epfd wakeFd listenFd index queuesize nthreads outcomes, []⟩ turns = .ok s)
    (a : Addr) : ClosesGracefully (callsOn s.worker.log a) ((a, .error) ∈ s.answered) := by
  by_cases hmem : (hmapInitInt Addr outcomes).1.buckets = []
  · -- without a map no connection is ever opened
    have hbarren := run_invariant (fun s : Traced => Barren s.worker)
      (fun s turn s' hs _ hstep => by
        obtain ⟨w', hloop, hs'⟩ := bind_eq_ok.mp hstep
        cases hs'
        exact hs.step hloop)
      turns _ s (barren_init epfd wakeFd listenFd index queuesize nthreads hmem) hdrains hrun
    have hnil : callsOn s.worker.log a = [] := by
      rw [hbarren.log_nil]
      rfl
    refine closesGracefully_of_settled (Or.inl hnil) fun before hcalls => ?_
    rw [hnil] at hcalls
    simp at hcalls
  · have hinit := inv_init FromStart epfd wakeFd listenFd index queuesize nthreads outcomes hmem
    obtain ⟨hinv, hsettled⟩ := run_settled hinit
      (settled_init epfd wakeFd listenFd index queuesize nthreads outcomes) hturns hdrains hrun
    refine closesGracefully_of_settled ?_ (hsettled.closed a)
    rcases hinv.core.known a with ⟨hnil, -⟩ | hsession
    · exact Or.inl hnil
    · exact Or.inr hsession.followsProtocol

/-- A connection whose first packet is answered with a response of three bytes and the end. The
results of `write` are a parameter. -/
def oneFarewell (writes : List WriteAnswer) : List Turn :=
  ([{}, {}, { wait := some [5] }, {}, {}, { read := .data [1] }, {},
    { response := ⟨[7, 8, 9], 3, 4, 0, true, false⟩ }, {}, { writes }, {}, {}] : List Answers).map
    fun answers => ⟨[3], false, ⟨[], [], 0⟩, answers⟩

theorem oneFarewell_legal (writes : List WriteAnswer) :
    ∀ turn ∈ oneFarewell writes, LegalTurn FromStart turn := by
  have hchecked : ∀ turn ∈ oneFarewell writes,
      (∀ events ∈ turn.answers.wait, events.Nodup) ∧ FromStart turn.answers.response := by
    simp [oneFarewell, FromStart]
  intro turn hmem
  obtain ⟨hnodup, hresponse⟩ := hchecked turn hmem
  exact ⟨fun events hwait => hnodup events hwait, hresponse⟩

/-- The calls on the connection, with the calls of `write` in it. -/
def oneFarewellCalls (writes : List ConnEvent) : List ConnEvent :=
  [.opened, .read (.data [1]), .process [1] ⟨[7, 8, 9], 3, 4, 0, true, false⟩] ++ writes ++
    [.closed, .closeFd]

/-- The response is sent in two parts, with an `EINTR` between them. -/
theorem graceful_close_drains_one_connection :
    ∃ s, run tracedStep ⟨Worker.init 3 4 2 0 8 1 [], []⟩
        (oneFarewell [.count 1, .interrupted, .count 2]) = .ok s ∧
      callsOn s.worker.log 0
        = oneFarewellCalls [.write 0 3 [7], .write 1 2 [], .write 1 2 [8, 9]] ∧
      ClosesGracefully (callsOn s.worker.log 0) ((0, .error) ∈ s.answered) := by
  have hlog : (run tracedStep ⟨Worker.init 3 4 2 0 8 1 [], []⟩
      (oneFarewell [.count 1, .interrupted, .count 2])).toOption.map
        (fun s => callsOn s.worker.log 0)
      = some (oneFarewellCalls [.write 0 3 [7], .write 1 2 [], .write 1 2 [8, 9]]) := by
    decide
  obtain ⟨s, hs, hcalls⟩ := Option.map_eq_some_iff.mp hlog
  have hrun := toOption_eq_some.mp hs
  exact ⟨s, hrun, hcalls, graceful_close_drains 3 4 2 0 8 1 [] _ s (oneFarewell_legal _)
    (by decide) hrun 0⟩

/-- `write` answers `EAGAIN`: the connection is closed, and nothing of the response was sent. -/
theorem not_closesGracefully_again :
    ∃ s, run tracedStep ⟨Worker.init 3 4 2 0 8 1 [], []⟩ (oneFarewell [.again]) = .ok s ∧
      callsOn s.worker.log 0 = oneFarewellCalls [.write 0 3 []] ∧
      ¬ ClosesGracefully (callsOn s.worker.log 0) ((0, .error) ∈ s.answered) := by
  have hlog : (run tracedStep ⟨Worker.init 3 4 2 0 8 1 [], []⟩
      (oneFarewell [.again])).toOption.map
        (fun s => (callsOn s.worker.log 0, s.answered))
      = some (oneFarewellCalls [.write 0 3 []], [(0, .again)]) := by
    decide
  obtain ⟨s, hs, hend⟩ := Option.map_eq_some_iff.mp hlog
  obtain ⟨hcalls, hanswered⟩ := Prod.mk.inj hend
  refine ⟨s, toOption_eq_some.mp hs, hcalls, fun hgraceful => ?_⟩
  rw [hcalls, hanswered] at hgraceful
  have hsent := hgraceful [.opened, .read (.data [1])] [1]
    ⟨[7, 8, 9], 3, 4, 0, true, false⟩ [.write 0 3 [], .closed] [] rfl rfl (by decide)
  revert hsent
  decide

end MustDb.Proofs.Libv
