import IoJournal.Journal

/-!
# IoJournal.FileJournal

The journal of a file logger, as it is in the files after the logger was shut down.

A session of `IoJournal.Shutdown` is what a run does to the disk, and keeps the records of the calls that
returned OK. Calls that return an error without touching the sink change nothing, so the sessions with
such calls in between are sound as well (`Journaling.session_sound`). The records are the lines of the
journal, and no line is split between two files.
-/

namespace IoJournal

open Wire Posix

section Session

variable {cpu : Cpu} {g17 : Double → Bytes} {path before : Bytes} {retention n : Nat} {d : Disk} {s : Journaling}

end Session

theorem fileTexts_read {config : LoggerConfig} {records : List Bytes} {journal : List Event}
    (h : List.Forall₂ (TextOf printDouble config .file) records journal) :
    ∃ texts : List Bytes, records = texts.map (fun text => text ++ [0x0A]) ∧
      List.Forall₂ (ReadsAs config.redactionMode) texts journal ∧ ∀ text ∈ texts, 0x0A ∉ text := by
  induction h with
  | nil => exact ⟨[], rfl, .nil, nofun⟩
  | cons hfirst _ ih =>
    obtain ⟨texts, rfl, hreads, hlines⟩ := ih
    obtain ⟨text, htext, rfl⟩ := Option.map_eq_some_iff.1 hfirst.text
    obtain ⟨hread, hline⟩ := hfirst.wellFormed.json_reads htext
    exact ⟨text :: texts, rfl, .cons hread hreads, List.forall_mem_cons.2 ⟨hline, hlines⟩⟩

end IoJournal
