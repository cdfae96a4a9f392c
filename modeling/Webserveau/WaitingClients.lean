import Webserveau.LoopSteps

/-!
Clients that wait for an answer.
A client in write mode is never timed out, so it must have a response to send or a
process to wait for. Every exit of a step sees to that except one: a process that ends
with malformed headers is removed without a response.
-/
namespace Webserveau.WaitingClients

open ByteStrings OrderedMaps Formats Requests Clients EventLoop Checks CgiOutputs Transitions
  LoopInvariants LoopSteps

/-- In every run without malformed output, a client that is written to has something to
send or to wait for. -/
theorem writing_client_served {server : ListenServer} {events : List Event} {c : Client}
    (h : Reaches step Answering (Client.newClient server) events c) (halive : c.alive = true)
    (hmode : c.mode = .write) : c.response ≠ none ∨ c.cgiProcess ≠ none := by
  have hserved := (reached_served h).2 halive hmode
  rcases hserved with hresponse | hcgi
  · left
    intro hnone
    exact hresponse (Option.map_eq_none_iff.mpr hnone)
  · right
    intro hnone
    exact hcgi (Option.map_eq_none_iff.mpr hnone)

theorem script_client_served :
    ∃ c, Reaches step Answering (Client.newClient plainServer) [reading scriptHead] c ∧
      c.mode = .write ∧ (c.response ≠ none ∨ c.cgiProcess ≠ none) := by
  have hrun : (step (Client.newClient plainServer) (reading scriptHead)).toOption.any
      (fun c => c.alive ∧ c.mode = .write) = true := by decide +kernel
  obtain ⟨c, hc, hstate⟩ := exists_of_any hrun
  obtain ⟨halive, hmode⟩ := of_decide_eq_true hstate
  have hallowed : Answering (Client.newClient plainServer) (reading scriptHead) := by
    intro hwritable
    exact absurd ⟨rfl, Or.inl rfl⟩ hwritable.2.1
  have hreach : Reaches step Answering (Client.newClient plainServer) ([] ++ [reading scriptHead])
      c := .snoc .nil hallowed hc
  exact ⟨c, hreach, hmode, writing_client_served hreach halive hmode⟩

/-- A script whose output has a header line without a colon leaves its client waiting. -/
theorem not_all_clients_served :
    ¬ ∀ (server : ListenServer) (events : List Event) (c : Client),
      Reaches step (fun _ _ => True) (Client.newClient server) events c → c.alive = true →
        c.mode = .write → c.response ≠ none ∨ c.cgiProcess ≠ none := by
  intro h
  have hrun : ([reading scriptHead, writing .exited (ascii "bad" ++ CRLF)].foldlM step
      (Client.newClient plainServer)).toOption.any (fun c => c.alive ∧ c.mode = .write ∧
        c.response.isSome = false ∧ c.cgiProcess.isSome = false) = true := by decide +kernel
  obtain ⟨c, hc, hstate⟩ := exists_of_any hrun
  obtain ⟨halive, hmode, hresponse, hcgi⟩ := of_decide_eq_true hstate
  have hserved := h _ _ c (Reaches.of_foldlM (fun _ _ => trivial) hc) halive hmode
  rcases hserved with hsome | hsome
  · exact hsome (Option.isSome_eq_false_iff.mp hresponse |> Option.isNone_iff_eq_none.mp)
  · exact hsome (Option.isSome_eq_false_iff.mp hcgi |> Option.isNone_iff_eq_none.mp)

end Webserveau.WaitingClients
