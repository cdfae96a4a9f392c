import Webserveau.ByteStrings
import Webserveau.Checks
import Webserveau.OrderedMaps
import Webserveau.Numerals
import Webserveau.Formats
import Webserveau.Requests
import Webserveau.HeadParsing
import Webserveau.Segmentation
import Webserveau.HeadSegmentation
import Webserveau.HeadSafety
import Webserveau.HeadReference
import Webserveau.BodyParsing
import Webserveau.BodySegmentation
import Webserveau.ChunkedDecoding
import Webserveau.Uris
import Webserveau.PathSegments
import Webserveau.PathConfinement
import Webserveau.Routing
import Webserveau.Responses
import Webserveau.CgiProcesses
import Webserveau.CgiOutputs
import Webserveau.Clients
import Webserveau.EventLoop
import Webserveau.ParserFrames
import Webserveau.RoutingFrames
import Webserveau.Transitions
import Webserveau.Replies
import Webserveau.Intake
import Webserveau.LoopInvariants
import Webserveau.LoopSteps
import Webserveau.WaitingClients
import Webserveau.OutputFiles
import Webserveau.RefusedRequests
import Webserveau.Acceptance
import Webserveau.BodyIntake
import Webserveau.UploadChecks
import Webserveau.ContentLength
import Webserveau.AccessRules
import Webserveau.Arenas
import Webserveau.Registries
import Webserveau.RegistryLinks
import Webserveau.UniqueIterators
import Webserveau.ClientBindings
import Webserveau.RegistryRuns
import Webserveau.StatusCodes
import Webserveau.StatusLines
import Webserveau.AnswerLogs
import Webserveau.ChunkedMessages
import Webserveau.TrailerSections
import Webserveau.ChunkedSizes
import Webserveau.ChunkedIntake
import Webserveau.UploadIntake
import Webserveau.UploadStarts
import Webserveau.BodyShapes
import Webserveau.DirListings
import Webserveau.DelimitedTexts
import Webserveau.CleanRequests
import Webserveau.ResponseHeads
import Webserveau.Selections
import Webserveau.LocationMatches
import Webserveau.Uploads
import Webserveau.Globs
import Webserveau.GlobMatching
import Webserveau.OriginTargets
import Webserveau.QueryRouting
import Webserveau.PathSpellings
import Webserveau.ShortWrites
import Webserveau.ResponseBuffers
import Webserveau.RefusedUploads
import Webserveau.BodyEvents
import Webserveau.HandlerRules
import Webserveau.CleanAnswers
import Webserveau.BodilessResponses
import Webserveau.Verdicts
import Webserveau.HeadLimits
import Webserveau.HeldBytes
import Webserveau.BoundedInput
import Webserveau.ConfigWords
import Webserveau.ConfigBlocks
import Webserveau.BlockExtraction
import Webserveau.WordReading
import Webserveau.ConfigParser
import Webserveau.ConfigReadings
import Webserveau.HostBlocks
import Webserveau.Registrations
import Webserveau.ErrorContainment
import Webserveau.QuotedBlocks
import Webserveau.SignedNumerals
import Webserveau.PercentDecoding
import Webserveau.AbsoluteTargets
import Webserveau.PathInfos
import Webserveau.IndexTargets
import Webserveau.CgiSections
import Webserveau.CgiStatuses
import Webserveau.ForbiddenUploads
import Webserveau.ExpectedAnswers
import Webserveau.ContinuedRequests
import Webserveau.HeaderNames
import Webserveau.StartedServers
import Webserveau.HostSelections
import Webserveau.DefaultHosts
import Webserveau.JoinedWords
import Webserveau.RepeatedDirectives
import Webserveau.FieldDirectives
import Webserveau.LastDirectives
import Webserveau.ServerRemovals
import Webserveau.Interning
import Webserveau.SharedRules
import Webserveau.RemovalExtents
import Webserveau.MainLoop
import Webserveau.HostLookups
import Webserveau.Connections
import Webserveau.BodyTargets
import Webserveau.RequestRights
import Webserveau.GrantedEffects
import Webserveau.AuthorizedEffects
import Webserveau.Framings
import Webserveau.Messages
import Webserveau.MessageIntake
import Webserveau.MessageSteps
import Webserveau.PipelinedRequests
import Webserveau.ConfiguredHosts
import Webserveau.ConfiguredServers
