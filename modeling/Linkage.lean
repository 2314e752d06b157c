import Linkage.OrderedMap
import Linkage.Symbol
import Linkage.LogFormat
import Linkage.Access
import Linkage.Primitive
import Linkage.TypeTable.Render
import Linkage.Options.Reader
import Linkage.ClassStore
import Linkage.MemberCache
import Linkage.View
import Linkage.Candidates
import Linkage.MethodResolution
import Linkage.FieldSearch
import Linkage.Operation
import Linkage.Proofs.CacheRefinement
import Linkage.Proofs.Coherence
import Linkage.Proofs.Tour
import Linkage.Proofs.Shadowing
import Linkage.Proofs.Superinterfaces
import Linkage.Proofs.MaximallySpecific
import Linkage.Proofs.ClassResolution
import Linkage.Proofs.FieldPruning
import Linkage.Proofs.Lifecycle
import Linkage.Proofs.Locality
import Linkage.Proofs.LostDefaults
import Linkage.Proofs.Provenance
import Linkage.Proofs.Rebinding
import Linkage.Proofs.DescriptorGrammar
import Linkage.Proofs.SymbolIdentity
import Linkage.Proofs.TypeTableGrowth
import Linkage.Proofs.Capacity
import Linkage.Proofs.TypeIdentity
import Linkage.Proofs.ParallelRuns
import Linkage.Proofs.SignatureIdentity
import Linkage.Proofs.ObsoleteMethods
import Linkage.Proofs.FrozenTables
import Linkage.Proofs.SynthesizedTargets
import Linkage.Proofs.SynthesizedClasses
import Linkage.Proofs.InterfaceInheritance
import Linkage.Proofs.LinkCount
import Linkage.Proofs.ExpandedOnce
import Linkage.Proofs.ReferenceKinds
import Linkage.Proofs.DepthBound
import Linkage.Proofs.CollectionSteps
import Linkage.Proofs.Termination
import Linkage.Proofs.DirectCalls
import Linkage.Proofs.CacheCounters
import Linkage.Proofs.ReadByRead
import Linkage.Proofs.Repetition
import Linkage.Proofs.TraceEvents
import Linkage.Proofs.CounterConservation
import Linkage.Descriptor.ByOffset
import Linkage.Proofs.DescriptorOffsets
import Linkage.Proofs.DescriptorFaults
import Linkage.Proofs.ElementChains
import Linkage.Proofs.WritingEnds
import Linkage.Proofs.ByteOrder
import Linkage.Proofs.SynthesizedListing
import Linkage.Proofs.JsonSpelling
import Linkage.Proofs.OptionsText
import Linkage.Proofs.FirstDeclarations
