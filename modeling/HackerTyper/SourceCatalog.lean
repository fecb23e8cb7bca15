import HackerTyper.Model

/-!
# The catalog of sources

The entries of `SourceCatalog.js`.

## Main definitions

* `sources`.

## Main results

* `id_ne_nil_of_mem_sources`: every entry has an identifier;
* `sourceById_sources`: a lookup in the catalog always finds an entry of it;
* `sourceById_of_mem_sources`: looking up the identifier of an entry finds that entry.
-/

namespace SourceCatalog

open Js HackerTyperModel

/-- The bundled sources. -/
def sources : List Source :=
  [⟨js "kernel-like", js "Kernel", js "C", js "sources/kernel-like.c"⟩,
   ⟨js "telemetry-engine", js "Telemetry Engine", js "C++", js "sources/telemetry-engine.cpp"⟩,
   ⟨js "command-coordinator", js "Command Coordinator", js "C#",
    js "sources/CommandCoordinator.cs"⟩,
   ⟨js "event-pipeline", js "Event Pipeline", js "Java", js "sources/EventPipeline.java"⟩,
   ⟨js "task-orchestrator", js "Task Orchestrator", js "TypeScript",
    js "sources/task-orchestrator.ts"⟩,
   ⟨js "async-observer", js "Async Observer", js "Python", js "sources/async-observer.py"⟩,
   ⟨js "cluster-reconciler", js "Cluster Reconciler", js "Go",
    js "sources/cluster-reconciler.go"⟩,
   ⟨js "packet-engine", js "Packet Engine", js "Rust", js "sources/packet-engine.rs"⟩,
   ⟨js "deploy-coordinator", js "Deploy Coordinator", js "Ruby",
    js "sources/deploy-coordinator.rb"⟩,
   ⟨js "request-router", js "Request Router", js "PHP", js "sources/request-router.php"⟩,
   ⟨js "fleet-bootstrap", js "Fleet Bootstrap", js "Bash", js "sources/fleet-bootstrap.sh"⟩,
   ⟨js "telemetry-lab", js "Telemetry Lab", js "SQL", js "sources/telemetry-lab.sql"⟩,
   ⟨js "workspace-rules", js "Workspace Rules", js "Lua", js "sources/workspace-rules.lua"⟩,
   ⟨js "hacker-typer-ui", js "Hacker Typer UI", js "QML", js "HackerTyper.qml"⟩]

theorem id_ne_nil_of_mem_sources {source : Source} (h : source ∈ sources) : source.id ≠ [] := by
  have hall : ∀ source ∈ sources, source.id ≠ [] := by decide
  exact hall source h

/-- A lookup that does not throw finds an entry. -/
theorem sourceById_sources {id : Json} {found : Option Source}
    (h : sourceById sources id = .ok found) : ∃ source ∈ sources, found = some source := by
  rw [sourceById, Result.bind_eq_ok] at h
  obtain ⟨requested, -, h⟩ := h
  split at h
  next source hsource =>
    -- found under its identifier
    cases h
    exact ⟨source, List.mem_of_find?_eq_some hsource, rfl⟩
  next =>
    -- not found, and the catalog is not empty
    cases h
    exact ⟨_, List.mem_cons_self, rfl⟩

/-- The identifiers are distinct, so the identifier of an entry finds that entry. -/
theorem sourceById_of_mem_sources {source : Source} (h : source ∈ sources) :
    sourceById sources (.str source.id) = .ok (some source) := by
  -- the first entry with the identifier is the entry itself
  have hall : ∀ source ∈ sources,
      (sources.find? fun other => decide (other.id = source.id)) = some source := by
    decide +kernel
  rw [sourceById_of_stringOrEmpty (Json.stringOrEmpty_str source.id), hall source h,
    Option.some_or]

end SourceCatalog
