import ApiSentinel.Accounting
import ApiSentinel.Assertions
import ApiSentinel.BaseUrl
import ApiSentinel.CaseLaw
import ApiSentinel.Consume
import ApiSentinel.Diagnostics
import ApiSentinel.Interruption
import ApiSentinel.Isolation
import ApiSentinel.Namespaces
import ApiSentinel.Order
import ApiSentinel.Preflight
import ApiSentinel.Recovery
import ApiSentinel.References
import ApiSentinel.Rendering
import ApiSentinel.StepVerdicts
import ApiSentinel.Verdicts
import ApiSentinel.CyclicReferences
import ApiSentinel.PointerSyntax
import ApiSentinel.HeaderNumbers
import ApiSentinel.AtomicWrite
import ApiSentinel.Reporting
import ApiSentinel.ReportVerdicts
import ApiSentinel.ContentTypes
import ApiSentinel.Assignments
import ApiSentinel.Respelling
import ApiSentinel.Declarations
import ApiSentinel.Overriding
import ApiSentinel.HeaderCase
import ApiSentinel.Schemas
import ApiSentinel.Endings
import ApiSentinel.Renewals
import ApiSentinel.Junit
import ApiSentinel.Modes
import ApiSentinel.Publishing
import ApiSentinel.Targets
import ApiSentinel.RequestVerdicts
