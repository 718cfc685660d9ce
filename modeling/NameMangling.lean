import NameMangling.Mangler
import NameMangling.Proofs.Scopes
import NameMangling.Proofs.Plans
import NameMangling.Proofs.Writing
import NameMangling.Proofs.Frames
import NameMangling.Proofs.Implementing
import NameMangling.Proofs.EncodedTypes
import NameMangling.Proofs.EncodedEntities
import NameMangling.Proofs.Commands
import NameMangling.Proofs.Sessions
import NameMangling.Proofs.Scoping
import NameMangling.Proofs.Ledgers
import NameMangling.Proofs.Numbering
import NameMangling.Proofs.Lossless
import NameMangling.Proofs.Spellings
import NameMangling.Proofs.Lexing
import NameMangling.Proofs.Sharing
import NameMangling.Proofs.Packing
import NameMangling.Proofs.Pooling
import NameMangling.Proofs.Decoding
import NameMangling.Proofs.Desugaring
import NameMangling.Proofs.CanonicalForms
import NameMangling.Proofs.HashConsing
import NameMangling.Proofs.Compositions
import NameMangling.Proofs.CompositionOrder
import NameMangling.Proofs.Placeholders
import NameMangling.Proofs.Reading
import NameMangling.Proofs.TypeReader
import NameMangling.Proofs.Unlabelled
import NameMangling.Proofs.ReadingPieces
import NameMangling.Proofs.ReadingTypes
import NameMangling.Proofs.ReadingFunctions
import NameMangling.Proofs.TypeNames
import NameMangling.Proofs.Outlines
import NameMangling.Proofs.LabelledTypes
import NameMangling.Proofs.LabelledFunctions
import NameMangling.Proofs.LabelRecovery
import NameMangling.Proofs.LabelledNames
import NameMangling.Proofs.Overloads
import NameMangling.Proofs.Naming
import NameMangling.Proofs.Rewording
import NameMangling.Proofs.RewordedSymbols
import NameMangling.Proofs.Relaxing
import NameMangling.Proofs.Nameless
import NameMangling.Proofs.BuiltPrograms
import NameMangling.Proofs.Shapes
import NameMangling.Proofs.Nesting
import NameMangling.Proofs.Walks
import NameMangling.Proofs.TypeDepth
import NameMangling.Proofs.Termination
import NameMangling.Proofs.NominalPaths
import NameMangling.Proofs.ReservedNames
import NameMangling.Proofs.TypeTexts
import NameMangling.Proofs.TupleParameters
import NameMangling.Proofs.InterfaceTypes
import NameMangling.Proofs.Endings
import NameMangling.Proofs.EndlessSpellings
import NameMangling.Proofs.InheritedTables
import NameMangling.Proofs.Leads
import NameMangling.Proofs.Subjects
import NameMangling.Proofs.Vocabularies
import NameMangling.Proofs.SugarRefusals
import NameMangling.Proofs.CanonicalGate
import NameMangling.Proofs.DepthBound
import NameMangling.Proofs.Adequacy
import NameMangling.Proofs.RequestBounds
import NameMangling.Proofs.Repetition
import NameMangling.Proofs.OrderedSearch
import NameMangling.Proofs.SignatureDeltas
import NameMangling.Proofs.AccessPaths
import NameMangling.Proofs.DerivativeNames
import NameMangling.Proofs.SymbolKinds
import NameMangling.Proofs.UniqueDecoding
import NameMangling.Proofs.IdentitySubstitutions
import NameMangling.Proofs.PresenceFlags
import NameMangling.Proofs.ParameterLookup
import NameMangling.Proofs.IndexSubsets
import NameMangling.Proofs.InternedTables
import NameMangling.Proofs.ParameterCounts
