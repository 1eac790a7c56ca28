import PassageLogic.Logic.Store
import PassageLogic.Logic.Script
import PassageLogic.Template.Printer
import PassageLogic.Render
import PassageLogic.Json.Statement
import PassageLogic.Json.Template
import PassageLogic.Toml.Settings
import PassageLogic.Proofs.Logic.Unification
import PassageLogic.Proofs.Logic.HerbrandModel
import PassageLogic.Proofs.Logic.SearchSteps
import PassageLogic.Proofs.Logic.Traces
import PassageLogic.Proofs.Logic.Soundness
import PassageLogic.Proofs.Logic.SearchLimits
import PassageLogic.Proofs.Logic.Completeness
import PassageLogic.Proofs.Statement.Pieces
import PassageLogic.Proofs.Statement.RoundTrip
import PassageLogic.Proofs.Logic.Correspondence
import PassageLogic.Proofs.Logic.Continuation
import PassageLogic.Proofs.Logic.Relevance
import PassageLogic.Proofs.Statement.Grammatical
import PassageLogic.Proofs.Session.Asking
import PassageLogic.Proofs.Session.Numbering
import PassageLogic.Proofs.Session.TransientRule
import PassageLogic.Proofs.Session.UnderValues
import PassageLogic.Proofs.Session.Extensions
import PassageLogic.Proofs.Session.Join
import PassageLogic.Proofs.Logic.Variants
import PassageLogic.Proofs.Session.Performing
import PassageLogic.Proofs.Session.NetEffect
import PassageLogic.Proofs.Logic.RaisedLimits
import PassageLogic.Proofs.Session.Survival
import PassageLogic.Proofs.Template.Commands
import PassageLogic.Proofs.Render.RaisedLimits
import PassageLogic.Proofs.Logic.Renaming
import PassageLogic.Proofs.Logic.QueryNames
import PassageLogic.Proofs.Session.Renumbering
import PassageLogic.Proofs.Session.Reads
import PassageLogic.Proofs.Render.Reading
import PassageLogic.Proofs.Logic.CanonicalForms
import PassageLogic.Proofs.Session.Tidy
import PassageLogic.Proofs.Render.WholeSessions
import PassageLogic.Proofs.Statement.Twins
import PassageLogic.Proofs.Template.Parameters
import PassageLogic.Proofs.Template.SourceLines
import PassageLogic.Proofs.Template.RoundTrip
import PassageLogic.Proofs.Template.Nesting
import PassageLogic.Proofs.Template.Preorder
import PassageLogic.Proofs.Session.Texts
import PassageLogic.Proofs.Render.Sequence
import PassageLogic.Proofs.Template.Filling
import PassageLogic.Proofs.Template.Refilling
import PassageLogic.Proofs.Render.Displays
import PassageLogic.Proofs.Render.Constraints
import PassageLogic.Proofs.Session.Gathering
import PassageLogic.Proofs.Session.Events
import PassageLogic.Proofs.Session.Cleanup
import PassageLogic.Proofs.Session.Brackets
import PassageLogic.Proofs.Render.Brackets
import PassageLogic.Proofs.Render.Branches
import PassageLogic.Proofs.Render.Recursion
import PassageLogic.Proofs.Logic.StoredVariants
import PassageLogic.Proofs.Logic.AddedClauses
import PassageLogic.Proofs.Logic.Reachability
import PassageLogic.Proofs.Logic.Uncapped
import PassageLogic.Proofs.Logic.Depth
import PassageLogic.Proofs.Logic.Denials
import PassageLogic.Proofs.Logic.FactQueries
import PassageLogic.Proofs.Session.Directives
import PassageLogic.Proofs.Session.Commanding
import PassageLogic.Proofs.Session.Collecting
import PassageLogic.Proofs.Statement.Predicates
import PassageLogic.Proofs.Session.NamelessVariables
import PassageLogic.Proofs.Statement.Spelling
import PassageLogic.Proofs.Template.Unfilled
import PassageLogic.Proofs.Render.Reached
import PassageLogic.Proofs.Statement.Misreadings
import PassageLogic.Proofs.Logic.Chains
import PassageLogic.Proofs.Logic.NumberedVariables
import PassageLogic.Proofs.Render.PrintedContexts
import PassageLogic.Proofs.Json.RoundTrip
