import Webserveau.LoopSteps

/-!
The output files of processes.
The end of a process removes the file that the hints of the request name at that moment.
In runs where every document can be served under a status without a page of its own, and
where no time runs out under a process, this is the file the process wrote to.
-/
namespace Webserveau.OutputFiles

open ByteStrings OrderedMaps Formats Requests Clients EventLoop Checks Transitions Replies
  LoopInvariants LoopSteps

/-- The file removed with a process is its output, in every run that keeps the paths. -/
theorem destroyed_output_removed {server : ListenServer} {events : List Event} {c : Client}
    (h : Reaches step Keeping (Client.newClient server) events c) {output path : Bytes}
    (hdestroyed : .destroyed output path ∈ c.trace) : path = output := by
  have hplaced : ¬ Misplaced (.destroyed output path) := (reached_placed h).2.2 _ hdestroyed
  by_contra hne
  exact hplaced fun heq => hne heq.symm

instance : DecidablePred KeepsPath := fun status =>
  inferInstanceAs (Decidable (¬ (400 ≤ status ∧ status < 418) ∧ status ≠ 500 ∧ status ≠ 503 ∧
    status ≠ 505))

instance : DecidablePred Misplaced
  | .destroyed output path => inferInstanceAs (Decidable (output ≠ path))
  | .checked _ | .bodyDone _ _ _ _ | .opened _ | .deleted _ | .removed _ | .spawned _
  | .responded _ _ _ _ | .sent _ | .terminated => isFalse fun h => h

def isDestroyed : Action → Bool
  | .destroyed _ _ => true
  | _ => false

theorem exists_destroyed {trace : List Action} (h : trace.any isDestroyed = true) :
    ∃ output path, .destroyed output path ∈ trace := by
  obtain ⟨a, ha, hdestroyed⟩ := List.any_eq_true.mp h
  cases a with
  | destroyed output path => exact ⟨output, path, ha⟩
  | _ => cases hdestroyed

/-- A document with a type. -/
def document : Bytes := ascii "Content-Type: text/html" ++ CRLF ++ CRLF

theorem script_output_removed :
    ∃ c output path, Reaches step Keeping (Client.newClient plainServer)
      [reading scriptHead, writing .exited document] c ∧
        .destroyed output path ∈ c.trace ∧ path = output := by
  have hfirst : (step (Client.newClient plainServer) (reading scriptHead)).toOption.any
      (fun c => ((c.getRequest.parseCgiHeaders (plainFiles document)).toOption.all
        fun out => KeepsPath out.2.resHints.status) ∧
        (step c (writing .exited document)).toOption.any fun c => c.trace.any isDestroyed) =
      true := by decide +kernel
  obtain ⟨c, hc, hstate⟩ := exists_of_any hfirst
  obtain ⟨hpath, hsecond⟩ := of_decide_eq_true hstate
  obtain ⟨d, hd, htrace⟩ := exists_of_any hsecond
  obtain ⟨output, path, hdestroyed⟩ := exists_destroyed htrace
  have hstart : Keeping (Client.newClient plainServer) (reading scriptHead) := by
    intro hwritable
    exact absurd ⟨rfl, Or.inl rfl⟩ hwritable.2.1
  have hserves : Keeping c (writing .exited document) := by
    intro _ _ _ verdict r hparse _
    have hparse' : c.getRequest.parseCgiHeaders (plainFiles document) = .ok (verdict, r) := hparse
    rw [hparse'] at hpath
    exact ⟨of_decide_eq_true hpath, rfl, rfl⟩
  have hreach : Reaches step Keeping (Client.newClient plainServer)
      (([] ++ [reading scriptHead]) ++ [writing .exited document]) d :=
    .snoc (.snoc .nil hstart hc) hserves hd
  exact ⟨d, output, path, hreach, hdestroyed, destroyed_output_removed hreach hdestroyed⟩

/-- A status that is no number makes the response an internal error, and the file of the
process stays. -/
theorem not_all_outputs_removed :
    ¬ ∀ (server : ListenServer) (events : List Event) (c : Client) (output path : Bytes),
      Reaches step (fun _ _ => True) (Client.newClient server) events c →
        .destroyed output path ∈ c.trace → path = output := by
  intro h
  have hrun : ([reading scriptHead, writing .exited (ascii "Status: abc" ++ CRLF)].foldlM step
      (Client.newClient plainServer)).toOption.any (fun c => c.trace.any fun a => Misplaced a) =
      true := by decide +kernel
  obtain ⟨c, hc, hstate⟩ := exists_of_any hrun
  obtain ⟨a, ha, hmisplaced⟩ := List.any_eq_true.mp hstate
  cases a with
  | destroyed output path =>
    have hsame := h _ _ c output path (Reaches.of_foldlM (fun _ _ => trivial) hc) ha
    exact of_decide_eq_true hmisplaced hsame.symm
  | _ => cases hmisplaced

end Webserveau.OutputFiles
