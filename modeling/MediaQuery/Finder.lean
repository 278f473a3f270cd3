import MediaQuery.Query

/-!
# Finders

A finder collects sources and hooks and starts queries. A query keeps what was there when it was started.
-/

namespace MediaQuery

/-- Sources, hooks and options. -/
structure Finder : Type 1 where
  registry : Registry
  options : FinderOptions

namespace Finder

/-- A finder without sources and hooks. -/
def empty (options : FinderOptions) : Finder := ⟨.empty, options⟩

/-- Adds a source, or replaces the one with its identifier. -/
def load (f : Finder) (s : Source) : Finder := { f with registry := f.registry.load s }

/-- Adds sources in order. -/
def loadAll (f : Finder) (sources : List Source) : Finder := sources.foldl load f

/-- Adds a hook. -/
def registerHook (f : Finder) (name : String) (hook : Hook) : Finder :=
  { f with registry := f.registry.registerHook name hook }

/-- The identifiers of all sources, sorted. -/
def sourceIds (f : Finder) : List String := Fields.names f.registry.sources

/-- The source of an identifier. -/
def source (f : Finder) (id : String) : Except PaginationError Source := f.registry.source id

/-- Starts a query. -/
def query (f : Finder) (request : Request) (options : QueryOptions) : Query :=
  ⟨f.registry, .start request options⟩

end Finder

end MediaQuery
